import PathPolicy.Proofs.LowestLatency.Choice
import PathPolicy.Proofs.Selector.History
import PathPolicy.Vm.Machine

/-!
Runs of the path selector with this policy loaded. The policy keeps its own account of the
candidates and of the penalties. The account agrees with the history of the run, since no call
of the daemon's makes the policy raise an error.
-/
namespace PathPolicy.Policies.LowestLatency
open Vm Selector

inductive Event
  | request (r : Request)
  /-- The policy is told that time went by. -/
  | elapsed (seconds : Float)

def Event.act : Event → Act
  | request r => .request r
  | elapsed seconds => .call ⟨scriptModule, periodicFunction, [.number seconds]⟩

def history (events : List Event) : History := accepted (events.map Event.act)

def run (path : String) (m : Machine State) (events : List Event) :
    Selector.State (Machine State) :=
  Selector.State.run (Machine.call policy) ⟨∅, ((Machine.host policy).load path m).2⟩
    (events.map Event.act)

def Event.onPenalty (fp : Fingerprint) (penalty : Option Float) : Event → Option Float
  | request r =>
    match Operation.ofRequest r with
    | .ok (_, .pathDown down _) =>
      if down = fp then some (penalty.getD 0 + penaltyStep) else penalty
    | _ => penalty
  | elapsed seconds => penalty.bind (decayed (1 - decayPerSecond * seconds))

def penalties (events : List Event) (fp : Fingerprint) : Option Float :=
  events.foldl (Event.onPenalty fp) none

/-! ### Penalties -/

theorem Penalties.on_eq_lookup (penalties : Penalties) (fp : Fingerprint) :
    penalties.on fp = penalties.lookup (.text fp) := by
  rw [Penalties.on, Penalties.find?, if_neg (by simp)]

theorem Penalties.set_text (penalties : Penalties) (down : Fingerprint) (x : Float) :
    penalties.set (.text down) x =
      (.text down, x) :: penalties.filter fun e => e.1 ≠ .text down := by
  simp [Penalties.set]

theorem Penalties.lookup_cons_of_ne {a b : Subject} (h : a ≠ b) (x : Float) (rest : Penalties) :
    List.lookup a ((b, x) :: rest) = rest.lookup a := by
  rw [List.lookup_cons, beq_false_of_ne h]

theorem Penalties.lookup_filter_of_ne {a b : Subject} (h : b ≠ a) (penalties : Penalties) :
    List.lookup b (penalties.filter fun e => e.1 ≠ a) = penalties.lookup b := by
  induction penalties with
  | nil => rfl
  | cons e rest ih =>
    obtain ⟨subject, v⟩ := e
    by_cases hs : subject = a
    · subst hs
      rw [List.filter_cons_of_neg (by simp), ih, lookup_cons_of_ne h]
    · rw [List.filter_cons_of_pos (by simpa using hs), List.lookup_cons, List.lookup_cons, ih]

theorem Penalties.on_set (penalties : Penalties) (down fp : Fingerprint) (x : Float) :
    (penalties.set (.text down) x).on fp = if down = fp then some x else penalties.on fp := by
  rw [on_eq_lookup, on_eq_lookup, set_text]
  by_cases h : down = fp
  · rw [if_pos h, h, List.lookup_cons_self]
  · have hne : Subject.text fp ≠ .text down := by
      rintro ⟨rfl⟩
      exact h rfl
    rw [if_neg h, lookup_cons_of_ne hne, lookup_filter_of_ne hne]

theorem Penalties.nodup_set {penalties : Penalties} (h : (penalties.map Prod.fst).Nodup)
    (down : Fingerprint) (x : Float) : ((penalties.set (.text down) x).map Prod.fst).Nodup := by
  rw [set_text, List.map_cons, List.nodup_cons]
  constructor
  · intro hmem
    obtain ⟨e, he, heq⟩ := List.mem_map.mp hmem
    exact absurd heq (by simpa using (List.mem_filter.mp he).2)
  · exact h.sublist (List.Sublist.map Prod.fst List.filter_sublist)

def Penalties.decay (penalties : Penalties) (factor : Float) : Penalties :=
  penalties.filterMap fun (subject, v) => (decayed factor v).map (subject, ·)

theorem Penalties.decay_cons (subject : Subject) (v : Float) (rest : Penalties) (factor : Float) :
    decay ((subject, v) :: rest) factor =
      ((decayed factor v).map (subject, ·)).toList ++ decay rest factor := by
  cases h : decayed factor v <;> simp [decay, h]

theorem Penalties.decay_sublist (penalties : Penalties) (factor : Float) :
    ((penalties.decay factor).map Prod.fst).Sublist (penalties.map Prod.fst) := by
  induction penalties with
  | nil => exact List.Sublist.refl _
  | cons e rest ih =>
    obtain ⟨subject, v⟩ := e
    rw [decay_cons]
    cases decayed factor v with
    | none => exact ih.cons subject
    | some left => exact ih.cons_cons subject

theorem Penalties.on_decay {penalties : Penalties} (h : (penalties.map Prod.fst).Nodup)
    (factor : Float) (fp : Fingerprint) :
    (penalties.decay factor).on fp = (penalties.on fp).bind (decayed factor) := by
  rw [on_eq_lookup, on_eq_lookup]
  induction penalties with
  | nil => rfl
  | cons e rest ih =>
    obtain ⟨subject, v⟩ := e
    rw [List.map_cons, List.nodup_cons] at h
    rw [decay_cons, List.lookup_append, ih h.2]
    by_cases hs : Subject.text fp = subject
    · subst hs
      -- a penalty that is gone has no second one behind it
      have hnone : List.lookup (Subject.text fp) rest = none := by
        rw [List.lookup_eq_none_iff]
        intro e he
        have hne : Subject.text fp ≠ e.1 := by
          intro heq
          rw [heq] at h
          exact h.1 (List.mem_map.mpr ⟨e, he, rfl⟩)
        simpa using hne
      rw [List.lookup_cons_self, hnone]
      cases hleft : decayed factor v <;> simp [hleft]
    · rw [lookup_cons_of_ne hs]
      cases decayed factor v with
      | none => rfl
      | some left =>
        rw [Option.map_some, Option.toList_some, lookup_cons_of_ne hs]
        rfl

/-! ### Calls of the policy -/

variable {c : Script.Call} {m : Machine State} {s : State}
  {f : State → List Value → Except String (List Value × State)}

theorem call_of_definition (hm : m.state = some s)
    (hf : definition? c.moduleName c.function = some f) :
    (Machine.call policy c m).1 =
        Machine.outcome c (Effect.ofResult s (f s (c.args.map ofScript))).result ∧
      (Machine.call policy c m).2.state =
        some (Effect.ofResult s (f s (c.args.map ofScript))).state := by
  have hbinding : policy.binding? s c.moduleName c.function =
      some (.function fun s args => .ofResult s (f s args)) := by
    simp only [policy, hf, Option.map_some]
  rw [Machine.call, hm]
  simp [hbinding]

theorem state_selectPath (s : State) (args : List Value) :
    (Effect.ofResult s (selectPath s args)).state = s := by
  rw [selectPath]
  cases select s (argument args 0) (argument args 1) <;> rfl

/-- What an accepted operation on a pair does to the policy's account. -/
structure Told (p : Pair) (operation : Operation) (s s' : State) : Prop where
  other : ∀ key, p.key ≠ key → s'.entries[key]? = s.entries[key]?
  listed : ∀ paths, operation.listed? = some paths →
    ∃ e, s'.entries[p.key]? = some e ∧ e.paths = ofScript (Path.listToScript paths)
  kept : operation.listed? = none → operation ≠ .close → ∀ e, s.entries[p.key]? = some e →
    ∃ e', s'.entries[p.key]? = some e' ∧ e'.paths = e.paths
  penalties : s'.penalties = match operation with
    | .pathDown fp _ => s.penalties.set (.text fp) ((s.penalties.on fp).getD 0 + penaltyStep)
    | _ => s.penalties

theorem Told.unchanged {p : Pair} {operation : Operation} (hlisted : operation.listed? = none)
    (hdown : ∀ fp interface, operation ≠ .pathDown fp interface) (s : State) :
    Told p operation s s := by
  refine ⟨fun _ _ => rfl, ?_, fun _ _ e he => ⟨e, he, rfl⟩, ?_⟩
  · intro paths h
    rw [hlisted] at h
    cases h
  · split
    · exact absurd rfl (hdown _ _)
    · rfl

theorem Told.insert {p : Pair} {operation : Operation} {s : State} {e : Entry}
    (hdown : ∀ fp interface, operation ≠ .pathDown fp interface)
    (hlisted : ∀ paths, operation.listed? = some paths →
      e.paths = ofScript (Path.listToScript paths))
    (hkept : operation.listed? = none → ∀ old, s.entries[p.key]? = some old →
      e.paths = old.paths) :
    Told p operation s { s with entries := s.entries.insert p.key e } := by
  refine ⟨?_, ?_, ?_, ?_⟩
  · intro key hkey
    simp [Std.ExtTreeMap.getElem?_insert, hkey]
  · intro paths hpaths
    exact ⟨e, by simp, hlisted paths hpaths⟩
  · intro hnone _ old hold
    exact ⟨e, by simp, hkept hnone old hold⟩
  · split
    · exact absurd rfl (hdown _ _)
    · rfl

theorem Told.erase (p : Pair) (s : State) :
    Told p .close s { s with entries := s.entries.erase p.key } := by
  refine ⟨?_, nofun, fun _ h => absurd rfl h, rfl⟩
  intro key hkey
  simp [Std.ExtTreeMap.getElem?_erase, hkey]

theorem Told.pathDown (p : Pair) (fp : Fingerprint) (interface : Interface) (s : State) :
    Told p (.pathDown fp interface) s
      { s with penalties := s.penalties.set (.text fp) ((s.penalties.on fp).getD 0 + penaltyStep) } :=
  ⟨fun _ _ => rfl, nofun, fun _ _ e he => ⟨e, he, rfl⟩, rfl⟩

theorem floatOf_penalty (penalties : Penalties) (fp : Fingerprint) :
    floatOf (penalty penalties (.text fp)) = (penalties.on fp).getD 0 := by
  rw [penalty_text]
  cases penalties.on fp <;> rfl

theorem entry_area (i : Interface) (whose : String) :
    entry (ofScript i.toScript) "IA" whose = .ok (.text i.area) :=
  entry_ofFields (v := .text i.area) (by simp) (by simp) whose

theorem pathDown_text (s : State) (l r : Value) (fp : Fingerprint) (interface : Interface) :
    pathDown s [l, r, .text fp, ofScript interface.toScript] = .ok ([], { s with
      penalties := s.penalties.set (.text fp) ((s.penalties.on fp).getD 0 + penaltyStep) }) := by
  rw [← floatOf_penalty, pathDown, entryAt]
  simp only [argument, List.getD_cons_succ, List.getD_cons_zero, entry_area]
  rfl

/-- The policy's account after an operation, of which the daemon tells the policy unless it is to
close a session that the daemon does not have. -/
def account (p : Pair) (t : SessionTable) (s : State) : Operation → State
  | .initialise preferences paths =>
    let e := ⟨ofScript (preferencesToScript preferences), ofScript (Path.listToScript paths)⟩
    { s with entries := s.entries.insert p.key e }
  | .setPreferences preferences =>
    let paths := match s.entries[p.key]? with | some e => e.paths | none => emptyTable
    { s with entries := s.entries.insert p.key ⟨ofScript (preferencesToScript preferences), paths⟩ }
  | .refresh paths =>
    let preferences := match s.entries[p.key]? with | some e => e.preferences | none => emptyTable
    { s with entries := s.entries.insert p.key ⟨preferences, ofScript (Path.listToScript paths)⟩ }
  | .path => s
  | .pathDown fp _ =>
    { s with penalties := s.penalties.set (.text fp) ((s.penalties.on fp).getD 0 + penaltyStep) }
  | .close => if t.contains p.key then { s with entries := s.entries.erase p.key } else s

theorem state_of_plan (hm : m.state = some s) (p : Pair) (t : SessionTable)
    (operation : Operation) :
    ((operation.plan p t).run (Machine.call policy) m).2.2.state =
      some (account p t s operation) := by
  cases operation with
  | initialise preferences paths =>
    exact (call_of_definition hm (c := p.call .initialise [preferencesToScript preferences]
      [Path.listToScript paths]) (f := initialise) rfl).2
  | setPreferences preferences =>
    exact (call_of_definition hm (c := p.call .setPreferences
      [preferencesToScript preferences] []) (f := setPreferences) rfl).2
  | refresh paths =>
    exact (call_of_definition hm (c := p.call .refresh [] [Path.listToScript paths])
      (f := refresh) rfl).2
  | path =>
    by_cases ht : t.contains p.key
    · have hcall := (call_of_definition hm (c := p.call .path [] []) (f := selectPath) rfl).2
      rw [state_selectPath] at hcall
      rw [Operation.plan, if_pos ht]
      exact hcall
    · rw [Operation.plan, if_neg ht]
      exact hm
  | pathDown fp interface =>
    have hcall := (call_of_definition hm (c := p.call .pathDown [] [.text fp, interface.toScript])
      (f := pathDown) rfl).2
    have hargs : (p.call .pathDown [] [.text fp, interface.toScript]).args.map ofScript =
        [.text p.localAddress, .text p.remoteAddress, .text fp, ofScript interface.toScript] := rfl
    rw [hargs, pathDown_text] at hcall
    exact hcall
  | close =>
    by_cases ht : t.contains p.key
    · have hcall := (call_of_definition hm (c := p.call .close [] []) (f := close) rfl).2
      rw [Operation.plan, if_pos ht, account, if_pos ht]
      exact hcall
    · rw [Operation.plan, if_neg ht, account, if_neg ht]
      exact hm

theorem told_account (p : Pair) (t : SessionTable) (s : State) (operation : Operation) :
    Told p operation s (account p t s operation) := by
  cases operation with
  | initialise preferences paths =>
    refine .insert nofun ?_ nofun
    rintro _ ⟨⟩
    rfl
  | setPreferences preferences =>
    refine .insert nofun nofun ?_
    intro _ old hold
    dsimp only
    rw [hold]
  | refresh paths =>
    refine .insert nofun ?_ nofun
    rintro _ ⟨⟩
    rfl
  | path => exact .unchanged rfl (by simp) s
  | pathDown fp interface => exact .pathDown p fp interface s
  | close =>
    rw [account]
    split
    · exact .erase p s
    · exact .unchanged rfl (by simp) s

/-! ### The account and the history -/

/-- The policy's account agrees with what happened. -/
structure Mirrors (events : List Event) (s : State) : Prop where
  entries : ∀ key paths, (history events).Offers key paths →
    ∃ e, s.entries[key]? = some e ∧ e.paths = ofScript (Path.listToScript paths)
  penalties : ∀ fp, s.penalties.on fp = penalties events fp
  nodup : (s.penalties.map Prod.fst).Nodup

theorem mirrors_start (path : String) : Mirrors [] ⟨path, ∅, []⟩ := by
  refine ⟨?_, fun _ => rfl, List.nodup_nil⟩
  intro key paths h
  exact absurd h Since.not_nil

theorem penalties_append_singleton (events : List Event) (event : Event) (fp : Fingerprint) :
    penalties (events ++ [event]) fp = event.onPenalty fp (penalties events fp) := by
  simp [penalties]

theorem history_append_singleton (events : List Event) (event : Event) :
    history (events ++ [event]) = history events ++ event.act.accepted?.toList := by
  rw [history, List.map_append, List.map_singleton, accepted_append_singleton]
  rfl

theorem accepted?_of_ok {r : Request} {entry : Pair × Operation}
    (hr : Operation.ofRequest r = .ok entry) : (Event.request r).act.accepted? = some entry := by
  rw [Event.act, Act.accepted?, hr]
  rfl

theorem Mirrors.operation {events : List Event} {r : Request} {p : Pair} {operation : Operation}
    {s' : State} (h : Mirrors events s) (hr : Operation.ofRequest r = .ok (p, operation))
    (ht : Told p operation s s') : Mirrors (events ++ [.request r]) s' := by
  refine ⟨?_, ?_, ?_⟩
  · intro key paths hoffers
    rw [history_append_singleton, accepted?_of_ok hr, Option.toList_some, History.Offers,
      Since.append_singleton] at hoffers
    rcases hoffers with ⟨rfl, hlisted⟩ | ⟨hkeeps, hold⟩
    · exact ht.listed paths hlisted
    · obtain ⟨e, he, hpaths⟩ := h.entries key paths hold
      by_cases hkey : p.key = key
      · subst hkey
        obtain ⟨hclose, hnone⟩ := hkeeps rfl
        obtain ⟨e', he', heq⟩ := ht.kept hnone hclose e he
        exact ⟨e', he', heq.trans hpaths⟩
      · exact ⟨e, (ht.other key hkey).trans he, hpaths⟩
  · intro fp
    rw [penalties_append_singleton, ht.penalties, Event.onPenalty, hr, ← h.penalties fp]
    cases operation with
    | pathDown down interface =>
      rw [Penalties.on_set]
      by_cases hfp : down = fp
      · simp [hfp]
      · simp [hfp]
    | _ => rfl
  · rw [ht.penalties]
    cases operation with
    | pathDown down interface => exact Penalties.nodup_set h.nodup down _
    | _ => exact h.nodup

theorem Mirrors.refused {events : List Event} {r : Request} {e : Fault} (h : Mirrors events s)
    (hr : Operation.ofRequest r = .error e) : Mirrors (events ++ [.request r]) s := by
  refine ⟨?_, ?_, h.nodup⟩
  · intro key paths hoffers
    have hnone : (Event.request r).act.accepted? = none := by
      rw [Event.act, Act.accepted?, hr]
      rfl
    rw [history_append_singleton, hnone, Option.toList_none, List.append_nil] at hoffers
    exact h.entries key paths hoffers
  · intro fp
    rw [penalties_append_singleton, Event.onPenalty, hr, h.penalties fp]

theorem Mirrors.elapsed {events : List Event} (h : Mirrors events s) (seconds : Float) :
    Mirrors (events ++ [.elapsed seconds])
      { s with penalties := s.penalties.decay (1 - decayPerSecond * seconds) } := by
  refine ⟨?_, ?_, h.nodup.sublist (Penalties.decay_sublist _ _)⟩
  · intro key paths hoffers
    rw [history_append_singleton, Event.act, Act.accepted?, Option.toList_none,
      List.append_nil] at hoffers
    exact h.entries key paths hoffers
  · intro fp
    rw [penalties_append_singleton, Event.onPenalty, ← h.penalties fp]
    exact Penalties.on_decay h.nodup _ fp

theorem periodic_number (s : State) (seconds : Float) :
    periodic s [.number seconds] = .ok ([], { s with
      penalties := s.penalties.decay (1 - decayPerSecond * seconds) }) := by
  obtain ⟨path, entries, penalties⟩ := s
  cases penalties <;> rfl

def Event.account (t : SessionTable) (s : State) : Event → State
  | .request r =>
    match Operation.ofRequest r with
    | .ok (p, operation) => LowestLatency.account p t s operation
    | .error _ => s
  | .elapsed seconds => { s with penalties := s.penalties.decay (1 - decayPerSecond * seconds) }

theorem state_run_append_singleton {path : String} {m : Machine State} {events : List Event}
    {s : State} (hs : (run path m events).script.state = some s) (event : Event) :
    (run path m (events ++ [event])).script.state =
      some (event.account (history events).sessions s) := by
  have hsessions : (history events).sessions = (run path m events).sessions :=
    (Selector.State.run_sessions _ _ _).symm
  rw [run, List.map_append, List.map_singleton, Selector.State.run_append_singleton, hsessions]
  cases event with
  | request r =>
    have hstep (s₀ : Selector.State (Machine State)) :
        (s₀.step (Machine.call policy) (.request r)).script =
          ((serve s₀.sessions r).run (Machine.call policy) s₀.script).2.2 := rfl
    rw [Event.act, hstep, serve, Event.account]
    cases hr : Operation.ofRequest r with
    | error e => exact hs
    | ok entry =>
      dsimp only
      rw [Script.Plan.run_map]
      exact state_of_plan hs entry.1 _ entry.2
  | elapsed seconds =>
    have hcall := (call_of_definition hs
      (c := ⟨scriptModule, periodicFunction, [.number seconds]⟩) (f := periodic) rfl).2
    rw [List.map_singleton, ofScript, periodic_number] at hcall
    exact hcall

theorem mirrors_run (path : String) (m : Machine State) (events : List Event) :
    ∃ s, (run path m events).script.state = some s ∧ Mirrors events s := by
  induction events using List.reverseRecOn with
  | nil => exact ⟨_, rfl, mirrors_start path⟩
  | append_singleton events event ih =>
    obtain ⟨s, hs, hmirrors⟩ := ih
    refine ⟨_, state_run_append_singleton hs event, ?_⟩
    cases event with
    | request r =>
      rw [Event.account]
      cases hr : Operation.ofRequest r with
      | error e => exact hmirrors.refused hr
      | ok entry => exact hmirrors.operation hr (told_account entry.1 _ s entry.2)
    | elapsed seconds => exact hmirrors.elapsed seconds

end PathPolicy.Policies.LowestLatency
