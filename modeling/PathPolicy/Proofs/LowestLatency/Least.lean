import PathPolicy.Proofs.LowestLatency.Answer
import PathPolicy.Proofs.LowestLatency.Totals

/-!
As long as no path is reported down, a question for the path is answered with the first candidate of
least latency. The policy has an entry for each open session, with the candidates that the session
has; the latencies are compared as scripts add them up.
-/
namespace PathPolicy.Policies.LowestLatency
open Vm Selector Json

variable {events : List Event} {p : Pair} {paths : List Path}

/-! ### Lists -/

/-- The list of an open session: the latest one since it was last closed, and the empty one before
there is any. -/
def Current (history : History) (key : String) (paths : List Path) : Prop :=
  history.Opened key ∧
    (history.Offers key paths ∨ paths = [] ∧ ∀ listed, ¬history.Offers key listed)

theorem inRange_of_ofRequest {r : Request} {operation : Operation}
    (hr : Operation.ofRequest r = .ok (p, operation)) (hlisted : operation.listed? = some paths) :
    ∀ c ∈ paths, c.InRange := by
  obtain ⟨method, -, hr⟩ := bind_eq_ok.mp hr
  obtain ⟨message, -, hr⟩ := bind_eq_ok.mp hr
  obtain ⟨pair, -, hr⟩ := bind_eq_ok.mp hr
  have hread {candidates : List Path} (h : Operation.candidates message = .ok candidates) :
      ∀ c ∈ candidates, c.InRange := by
    intro c hc
    obtain ⟨w, -, hw⟩ := exists_of_mem_mapM h hc
    exact Path.inRange_of_ofWire hw
  cases method with
  | initialise =>
    obtain ⟨candidates, hcandidates, hr⟩ := bind_eq_ok.mp hr
    cases hr
    cases hlisted
    exact hread hcandidates
  | refresh =>
    obtain ⟨candidates, hcandidates, hr⟩ := bind_eq_ok.mp hr
    cases hr
    cases hlisted
    exact hread hcandidates
  | pathDown =>
    obtain ⟨fp, -, hr⟩ := bind_eq_ok.mp hr
    obtain ⟨interface, -, hr⟩ := bind_eq_ok.mp hr
    cases hr
    cases hlisted
  | _ =>
    cases hr
    cases hlisted

theorem Current.inRange {key : String} (h : Current (history events) key paths) :
    ∀ c ∈ paths, c.InRange := by
  rcases h.2 with ⟨before, entry, after, heq, ⟨-, hlisted⟩, -⟩ | ⟨rfl, -⟩
  · have hmem : entry ∈ history events := by
      rw [heq]
      exact List.mem_append_right _ List.mem_cons_self
    obtain ⟨act, -, hact⟩ := List.mem_filterMap.mp hmem
    cases act with
    | call c => cases hact
    | request r =>
      rw [Act.accepted?] at hact
      cases hr : Operation.ofRequest r with
      | error e =>
        rw [hr] at hact
        cases hact
      | ok accepted =>
        rw [hr] at hact
        cases hact
        exact inRange_of_ofRequest hr hlisted
  · exact List.forall_mem_nil _

/-! ### Entries -/

/-- The policy has an entry for each open session and for no other, with the session's list. -/
structure Follows (events : List Event) (s : State) : Prop where
  opened : ∀ key, s.entries[key]?.isSome ↔ (history events).Opened key
  current : ∀ key paths, Current (history events) key paths →
    ∃ e, s.entries[key]? = some e ∧ e.paths = ofScript (Path.listToScript paths)

theorem follows_start (path : String) : Follows [] ⟨path, ∅, []⟩ := by
  refine ⟨fun key => ?_, fun key paths h => absurd h.1 Since.not_nil⟩
  rw [show (history []).Opened key ↔ False from iff_false_intro Since.not_nil]
  simp

theorem isSome_account {t : SessionTable} {s : State}
    (ht : t.contains p.key ↔ s.entries[p.key]?.isSome) (operation : Operation) (key : String) :
    (account p t s operation).entries[key]?.isSome ↔
      (p.key = key ∧ operation.Opens) ∨
        (p.key = key → operation ≠ .close) ∧ s.entries[key]?.isSome := by
  by_cases hkey : p.key = key
  · subst hkey
    cases operation with
    | close =>
      rw [account]
      split
      next hopen => simp [Operation.Opens]
      next hopen => simpa [Operation.Opens] using mt ht.mpr hopen
    | _ => simp [account, Operation.Opens]
  · rw [(told_account p t s operation).other key hkey]
    simp [hkey]

theorem Current.of_other {history : History} {operation : Operation} {key : String}
    (hkey : p.key ≠ key) (h : Current (history ++ [(p, operation)]) key paths) :
    Current history key paths := by
  have hopened : History.Opened key (history ++ [(p, operation)]) ↔ history.Opened key := by
    simp [History.Opened, Since.append_singleton, hkey]
  have hoffers (listed : List Path) :
      History.Offers key listed (history ++ [(p, operation)]) ↔ history.Offers key listed := by
    simp [History.Offers, Since.append_singleton, hkey]
  simpa only [Current, hopened, hoffers] using h

theorem Current.eq_of_listed {history : History} {operation : Operation} {listed : List Path}
    (hlisted : operation.listed? = some listed)
    (h : Current (history ++ [(p, operation)]) p.key paths) : paths = listed := by
  have hoffers : History.Offers p.key listed (history ++ [(p, operation)]) :=
    (Since.append_singleton ..).mpr (.inl ⟨rfl, hlisted⟩)
  rcases h.2 with h | ⟨-, hnone⟩
  · rcases (Since.append_singleton ..).mp h with ⟨-, hpaths⟩ | ⟨hkeeps, -⟩
    · exact Option.some.inj (hpaths.symm.trans hlisted)
    · exact absurd ((hkeeps rfl).2.symm.trans hlisted) nofun
  · exact absurd hoffers (hnone listed)

theorem Current.of_unlisted {history : History} {operation : Operation}
    (hlisted : operation.listed? = none)
    (h : Current (history ++ [(p, operation)]) p.key paths) :
    operation ≠ .close ∧
      (Current history p.key paths ∨ operation.Opens ∧ ¬history.Opened p.key ∧ paths = []) := by
  obtain ⟨hopened, hlist⟩ := h
  have hclose : operation ≠ .close := by
    rintro rfl
    rcases (Since.append_singleton ..).mp hopened with ⟨-, hopens⟩ | ⟨hkeeps, -⟩
    · exact hopens
    · exact hkeeps rfl rfl
  have hoffers (listed : List Path) :
      History.Offers p.key listed (history ++ [(p, operation)]) ↔ history.Offers p.key listed := by
    simp [History.Offers, Since.append_singleton, hlisted, hclose]
  simp only [hoffers] at hlist
  refine ⟨hclose, ?_⟩
  by_cases hbefore : history.Opened p.key
  · exact .inl ⟨hbefore, hlist⟩
  · refine .inr ⟨?_, hbefore, ?_⟩
    · rcases (Since.append_singleton ..).mp hopened with ⟨-, hopens⟩ | ⟨-, hold⟩
      · exact hopens
      · exact absurd hold hbefore
    · rcases hlist with h | ⟨hnone, -⟩
      · exact absurd h.opened hbefore
      · exact hnone

theorem Follows.operation {s : State} {r : Request} {operation : Operation}
    (h : Follows events s) (hr : Operation.ofRequest r = .ok (p, operation)) :
    Follows (events ++ [.request r]) (account p (history events).sessions s operation) := by
  have hhistory : history (events ++ [.request r]) = history events ++ [(p, operation)] := by
    rw [history_append_singleton, accepted?_of_ok hr, Option.toList_some]
  have hcontains : (history events).sessions.contains p.key ↔ s.entries[p.key]?.isSome :=
    ((history events).contains_sessions p.key).trans (h.opened p.key).symm
  have htold := told_account p (history events).sessions s operation
  refine ⟨fun key => ?_, fun key paths hcurrent => ?_⟩
  · rw [hhistory, History.Opened, Since.append_singleton, isSome_account hcontains, h.opened]
    rfl
  · rw [hhistory] at hcurrent
    -- what is done for one pair leaves the account of every other one
    by_cases hkey : p.key = key
    · subst hkey
      cases hlisted : operation.listed? with
      | some listed =>
        obtain rfl := hcurrent.eq_of_listed hlisted
        exact htold.listed _ hlisted
      | none =>
        obtain ⟨hclose, hbefore | ⟨hopens, hbefore, rfl⟩⟩ := hcurrent.of_unlisted hlisted
        · obtain ⟨e, he, hpaths⟩ := h.current _ _ hbefore
          obtain ⟨e', he', heq⟩ := htold.kept hlisted hclose e he
          exact ⟨e', he', heq.trans hpaths⟩
        · -- only preferences open a session without a list
          have hnone : s.entries[p.key]? = none := by
            rw [← Option.not_isSome_iff_eq_none, h.opened]
            exact hbefore
          cases operation with
          | setPreferences preferences =>
            exact ⟨⟨ofScript (preferencesToScript preferences), emptyTable⟩,
              by simp [account, hnone], rfl⟩
          | initialise _ _ => cases hlisted
          | refresh _ => cases hlisted
          | _ => exact hopens.elim
    · obtain ⟨e, he, hpaths⟩ := h.current key paths (hcurrent.of_other hkey)
      exact ⟨e, (htold.other key hkey).trans he, hpaths⟩

theorem Follows.of_history {event : Event} {s s' : State} (h : Follows events s)
    (hhistory : history (events ++ [event]) = history events) (hentries : s'.entries = s.entries) :
    Follows (events ++ [event]) s' := by
  constructor <;> rw [hhistory, hentries]
  · exact h.opened
  · exact h.current

theorem follows_run (path : String) (m : Machine State) (events : List Event) :
    ∃ s, (run path m events).script.state = some s ∧ Follows events s := by
  induction events using List.reverseRecOn with
  | nil => exact ⟨_, rfl, follows_start path⟩
  | append_singleton events event ih =>
    obtain ⟨s, hs, hfollows⟩ := ih
    refine ⟨_, state_run_append_singleton hs event, ?_⟩
    cases event with
    | request r =>
      rw [Event.account]
      cases hr : Operation.ofRequest r with
      | error e =>
        have hnone : (Event.request r).act.accepted? = none := by
          rw [Event.act, Act.accepted?, hr]
          rfl
        refine hfollows.of_history ?_ rfl
        rw [history_append_singleton, hnone, Option.toList_none, List.append_nil]
      | ok entry => exact hfollows.operation hr
    | elapsed seconds =>
      refine hfollows.of_history ?_ rfl
      rw [history_append_singleton, Event.act, Act.accepted?, Option.toList_none, List.append_nil]

/-! ### Without a path down -/

def NoneDown (history : History) : Prop :=
  ∀ entry ∈ history, ∀ fp interface, entry.2 ≠ .pathDown fp interface

theorem penalties_of_noneDown (h : NoneDown (history events)) (fp : Fingerprint) :
    penalties events fp = none := by
  induction events using List.reverseRecOn with
  | nil => rfl
  | append_singleton events event ih =>
    rw [history_append_singleton] at h
    rw [penalties_append_singleton, ih fun entry hentry => h entry (List.mem_append_left _ hentry)]
    cases event with
    | elapsed seconds => rfl
    | request r =>
      rw [Event.onPenalty]
      split
      next p down interface hr =>
        rw [accepted?_of_ok hr] at h
        exact absurd rfl (h _ (List.mem_append_right _ List.mem_cons_self) down interface)
      next => rfl

theorem live_of_noneDown {history : History} {key : String} (hdown : NoneDown history)
    (h : history.Offers key paths) {c : Path} (hc : c ∈ paths) :
    history.Live key c.fingerprint := by
  obtain ⟨before, entry, after, rfl, ⟨hkey, hlisted⟩, hafter⟩ := h
  refine ⟨before, entry, after, rfl, ⟨hkey, paths, hlisted, List.mem_map_of_mem hc⟩, ?_⟩
  intro e he hk
  obtain ⟨hclose, hnone⟩ := hafter e he hk
  have hmem : e ∈ before ++ entry :: after :=
    List.mem_append_right _ (List.mem_cons_of_mem entry he)
  exact ⟨hclose, hnone, hdown e hmem c.fingerprint⟩

theorem answer_of_current (path : String) (m : Machine State) {r : Request}
    (hr : Operation.ofRequest r = .ok (p, .path)) (hcurrent : Current (history events) p.key paths)
    (hdown : NoneDown (history events)) :
    (run path m events).answer (Machine.call policy) r = .ok (some (selectionValue
      ((paths.argmin fun c => (hops c).exact).map Path.fingerprint))) := by
  obtain ⟨s, hs, hfollows⟩ := follows_run path m events
  obtain ⟨e, he, hpaths⟩ := hfollows.current p.key paths hcurrent
  have hpenalties : s.penalties.on = fun _ => none := by
    obtain ⟨s', hs', hmirrors⟩ := mirrors_run path m events
    obtain rfl := Option.some.inj (hs.symm.trans hs')
    exact funext fun fp => (hmirrors.penalties fp).trans (penalties_of_noneDown hdown fp)
  rw [answer_of_entry hr hs he hpaths hcurrent.1, hpenalties, preferred_of_no_penalty]
  cases hleast : paths.argmin fun c => (hops c).exact with
  | none => rfl
  | some c =>
    have hc : c ∈ paths := List.argmin_mem hleast
    have hlive : (history events).Live p.key c.fingerprint := by
      rcases hcurrent.2 with hoffers | ⟨rfl, -⟩
      · exact live_of_noneDown hdown hoffers hc
      · cases hc
    rw [Option.map_some, Option.filter_some,
      if_pos (((history events).isSome_resolve_sessions _ _).mpr hlive)]

/-- As long as no path is reported down, a question for the path of an open session is answered with
one of its candidates, and with none if there are none. Unless whole numbers wrap around, it is the
first of those whose latencies come to the least as scripts add them up, which is near the exact
sum; and if one of the exact sums is in the signed range, it is the first of the least exact sum. -/
theorem least_latency_selected (path : String) (m : Machine State) (events : List Event)
    (r : Request) (p : Pair) (paths : List Path) (hr : Operation.ofRequest r = .ok (p, .path))
    (hcurrent : Current (history events) p.key paths) (hdown : NoneDown (history events)) :
    ∃ answer,
      (run path m events).answer (Machine.call policy) r = .ok (some (selectionValue answer)) ∧
      (answer = none ↔ paths = []) ∧ (∀ fp ∈ answer, fp ∈ paths.map Path.fingerprint) ∧
      ((∀ c ∈ paths, Unwrapped (latencies c)) →
        answer = (paths.argmin fun c => (hops c).exact).map Path.fingerprint ∧
        (∀ c ∈ paths, ∃ t, (hops c).exact = Extended.ofRat t ∧ Approximates c t) ∧
        ((∃ c ∈ paths, exactTotal c < 2 ^ 63) →
          answer = (paths.argmin exactTotal).map Path.fingerprint)) := by
  refine ⟨_, answer_of_current path m hr hcurrent hdown, ?_, ?_, fun hunwrapped => ?_⟩
  · rw [Option.map_eq_none_iff, List.argmin_eq_none]
  · intro fp hfp
    obtain ⟨c, hc, rfl⟩ := Option.map_eq_some_iff.mp hfp
    exact List.mem_map_of_mem (List.argmin_mem hc)
  · have happrox : ∀ c ∈ paths, ∃ t, (hops c).exact = Extended.ofRat t ∧ Approximates c t :=
      fun c hc => approximates_hops (hcurrent.inRange c hc) (hunwrapped c hc)
    exact ⟨rfl, happrox, fun hlow => by rw [argmin_hops happrox hlow]⟩

def pathOf (fp : Fingerprint) (latency : List Nat) : Path :=
  ⟨"here", "there", some ⟨1500, [], latency, [], [], [], [], []⟩, fp, ⟨5⟩⟩

def listing (paths : List Path) : List Event :=
  [.request (sampleRequest .initialise
    { Message.empty with paths := some (paths.map Path.toWire) })]

theorem current_singleton (preferences : Json.Texts) (paths : List Path) :
    Current [(p, .initialise preferences paths)] p.key paths :=
  ⟨⟨[], _, _, rfl, ⟨rfl, trivial⟩, nofun⟩, .inl ⟨[], _, _, rfl, ⟨rfl, rfl⟩, nofun⟩⟩

theorem ofRequest_samplePath :
    Operation.ofRequest (sampleRequest .path .empty) = .ok (⟨"a", "b"⟩, .path) := by rfl

theorem noneDown_listing (h : history (listing paths) = [(p, .initialise ∅ paths)]) :
    NoneDown (history (listing paths)) := by
  simp [NoneDown, h]

theorem current_listing (h : history (listing paths) = [(p, .initialise ∅ paths)]) :
    Current (history (listing paths)) p.key paths := by
  rw [h]
  exact current_singleton ∅ paths

def mixed : List Path :=
  [pathOf "slow" [2 ^ 62, 2 ^ 63 + 1025, 7], pathOf "first" [4, 3], pathOf "second" [2, 5]]

set_option maxRecDepth 8192 in
theorem history_mixed : history (listing mixed) = [(⟨"a", "b"⟩, .initialise ∅ mixed)] := by rfl

theorem least_latency_selected_mixed :
    Operation.ofRequest (sampleRequest .path .empty) = .ok (⟨"a", "b"⟩, .path) ∧
      Current (history (listing mixed)) (Pair.key ⟨"a", "b"⟩) mixed ∧
      NoneDown (history (listing mixed)) ∧ (∀ c ∈ mixed, Unwrapped (latencies c)) ∧
      (run "default.lua" .start (listing mixed)).answer (Machine.call policy)
        (sampleRequest .path .empty) = .ok (some (selectionValue (some "first"))) := by
  have hcurrent := current_listing history_mixed
  have hdown := noneDown_listing history_mixed
  have hunwrapped : ∀ c ∈ mixed, Unwrapped (latencies c) := by
    unfold Unwrapped
    decide
  obtain ⟨answer, hanswer, -, -, hleast⟩ :=
    least_latency_selected "default.lua" .start (listing mixed) _ _ mixed ofRequest_samplePath
      hcurrent hdown
  have hexact := (hleast hunwrapped).2.2 (by decide)
  refine ⟨ofRequest_samplePath, hcurrent, hdown, hunwrapped, ?_⟩
  rw [hanswer, hexact]
  rfl

/-! ### Beyond the signed range -/

def tied : List Path := [pathOf "far" [2 ^ 63 + 1], pathOf "near" [2 ^ 63]]

set_option maxRecDepth 8192 in
theorem history_tied : history (listing tied) = [(⟨"a", "b"⟩, .initialise ∅ tied)] := by rfl

theorem hops_tied : hops (pathOf "far" [2 ^ 63 + 1]) = hops (pathOf "near" [2 ^ 63]) := by
  have hsum : Double.ofInt (0 : Int64).toInt + Float.ofScientific (2 ^ 63 + 1) false 0 =
      Double.ofInt (0 : Int64).toInt + Float.ofScientific (2 ^ 63) false 0 := by
    decide +kernel
  exact congrArg Vm.Value.number hsum

/-- Latencies from the end of the signed range on are rounded, and so the first candidate is
selected though the second one is quicker. -/
theorem quicker_not_selected :
    Operation.ofRequest (sampleRequest .path .empty) = .ok (⟨"a", "b"⟩, .path) ∧
      Current (history (listing tied)) (Pair.key ⟨"a", "b"⟩) tied ∧
      NoneDown (history (listing tied)) ∧
      (run "default.lua" .start (listing tied)).answer (Machine.call policy)
        (sampleRequest .path .empty) = .ok (some (selectionValue (some "far"))) ∧
      (tied.argmin exactTotal).map Path.fingerprint = some "near" := by
  have hcurrent := current_listing history_tied
  have hdown := noneDown_listing history_tied
  have hleast : (tied.argmin fun c => (hops c).exact) = some (pathOf "far" [2 ^ 63 + 1]) := by
    rw [tied, List.argmin_cons, List.argmin_singleton]
    simp only [hops_tied, lt_irrefl, if_false]
  refine ⟨ofRequest_samplePath, hcurrent, hdown, ?_, by decide⟩
  rw [answer_of_current "default.lua" .start ofRequest_samplePath hcurrent hdown, hleast]
  rfl

end PathPolicy.Policies.LowestLatency
