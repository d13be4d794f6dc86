import PathPolicy.Client.Selector

/-!
One operation of a client whose call comes to an arbitrary outcome: what becomes of the last
selection and of the table, and what the operation gives.
-/
namespace PathPolicy.Client
open Json
open PathPolicy.Selector (Pair Message PathTable)

/-! ### The client after an operation -/

/-- What a step leaves and gives, once its call has come to an outcome. Without a call there is
nothing to wait for. -/
def Step.settle : Step → Except Fault Message → Selector × Except Fault (Option Path)
  | .silent s result, _ => (s, result)
  | .ask _ _ _ finish, outcome => finish outcome

namespace Operation

def listed? : Operation → Option (List Path)
  | .initialise _ paths | .refresh paths => some paths
  | .setPreferences _ | .path | .tryPath | .pathDown _ _ | .close => none

def Lists (fp : Fingerprint) (p : Path) (o : Operation) : Prop :=
  ∃ paths, o.listed? = some paths ∧ (paths.reverse.find? fun q => q.fingerprint = fp) = some p

/-- The operation neither closes, nor brings a new list, nor reports the path down. -/
def Spares (fp : Fingerprint) (o : Operation) : Prop :=
  o ≠ .close ∧ o.listed? = none ∧ ∀ interface, o ≠ .pathDown fp interface

/-- The operation neither starts anew, nor closes, nor reports the path down, and what list it
refreshes contains the fingerprint. -/
def Retains (fp : Fingerprint) : Operation → Prop
  | .initialise _ _ | .close => False
  | .pathDown down _ => down ≠ fp
  | .refresh paths => fp ∈ paths.map Path.fingerprint
  | .setPreferences _ | .path | .tryPath => True

def Asks (o : Operation) : Prop := o = .path ∨ o = .tryPath

end Operation

/-- An operation, the client before it, and the outcome of its call. -/
structure Occasion where
  before : Selector
  operation : Operation
  outcome : Except Fault Message

namespace Occasion

def after (x : Occasion) : Selector := ((x.before.step x.operation).settle x.outcome).1

def result (x : Occasion) : Except Fault (Option Path) :=
  ((x.before.step x.operation).settle x.outcome).2

/-- The daemon was asked for the path, and replied with a fingerprint in the client's table. -/
structure Resolves (fp : Fingerprint) (x : Occasion) : Prop where
  asks : x.operation.Asks
  opened : x.before.pair.isSome
  reply : ∃ m, x.outcome = .ok m ∧ m.fingerprint = some fp
  known : x.before.paths.contains fp

end Occasion

namespace Selector

theorem settle_tell (s : Selector) (method : PathPolicy.Selector.Method) (message : Message)
    (outcome : Except Fault Message) :
    (s.tell method message).settle outcome = (s, outcome.map fun _ => none) := rfl

theorem settle_tellPair_fst (s : Selector) (method : PathPolicy.Selector.Method)
    (fill : Message → Message) (outcome : Except Fault Message) :
    ((s.tellPair method fill).settle outcome).1 = s := by
  rw [tellPair]
  split <;> rfl

theorem settle_tellPair_snd (s : Selector) (method : PathPolicy.Selector.Method)
    (fill : Message → Message) (outcome : Except Fault Message) (p : Path) :
    ((s.tellPair method fill).settle outcome).2 ≠ .ok (some p) := by
  rw [tellPair]
  split
  · simp [Step.settle]
  · cases outcome <;> simp [settle_tell, Except.map]

theorem select_snd (s : Selector) (reply : Message) :
    (s.select reply).2 = reply.fingerprint.bind fun fp => s.paths[fp]? := by
  rw [select]
  cases hreply : reply.fingerprint with
  | none => rfl
  | some fp => cases hpath : s.paths[fp]? <;> simp [hpath]

theorem select_fst_of_known {s : Selector} {reply : Message} {fp : Fingerprint}
    (hreply : reply.fingerprint = some fp) (hknown : s.paths.contains fp) :
    (s.select reply).1 = { s with lastGood := some fp } := by
  rw [Std.ExtTreeMap.contains_eq_isSome_getElem?] at hknown
  obtain ⟨p, hp⟩ := Option.isSome_iff_exists.mp hknown
  simp [select, hreply, hp]

theorem select_fst_of_unknown {s : Selector} {reply : Message}
    (h : ∀ fp, reply.fingerprint = some fp → ¬s.paths.contains fp) : (s.select reply).1 = s := by
  rw [select]
  cases hreply : reply.fingerprint with
  | none => rfl
  | some fp =>
    have hnone := h fp hreply
    rw [Std.ExtTreeMap.contains_eq_isSome_getElem?, Option.not_isSome_iff_eq_none] at hnone
    simp [hnone]

theorem settle_askPath_of_some {s : Selector} {pair : Pair} (h : s.pair = some pair)
    (onFault : Fault → Except Fault (Option Path)) (outcome : Except Fault Message) :
    (s.askPath onFault).settle outcome =
      match outcome with
      | .error e => (s, onFault e)
      | .ok reply => ((s.select reply).1, .ok (s.select reply).2) := by
  simp only [askPath, h]
  cases outcome <;> rfl

end Selector

namespace Occasion
variable {s : Selector} {o : Operation} {outcome : Except Fault Message}

theorem after_asks_of_none (ho : o.Asks) (hpair : s.pair = none) :
    (⟨s, o, outcome⟩ : Occasion).after = s := by
  rcases ho with rfl | rfl <;> simp [after, Selector.step, Selector.askPath, hpair, Step.settle]

theorem after_asks_of_error {e : Fault} (ho : o.Asks) :
    (⟨s, o, .error e⟩ : Occasion).after = s := by
  cases hpair : s.pair with
  | none => exact after_asks_of_none ho hpair
  | some pair =>
    rcases ho with rfl | rfl <;>
      simp [after, Selector.step, Selector.settle_askPath_of_some hpair]

theorem after_asks_of_reply {reply : Message} {pair : Pair} (ho : o.Asks)
    (hpair : s.pair = some pair) :
    (⟨s, o, .ok reply⟩ : Occasion).after = (s.select reply).1 := by
  rcases ho with rfl | rfl <;> simp [after, Selector.step, Selector.settle_askPath_of_some hpair]

theorem Resolves.after_eq {x : Occasion} {fp : Fingerprint} (h : x.Resolves fp) :
    x.after = { x.before with lastGood := some fp } := by
  obtain ⟨s, o, outcome⟩ := x
  obtain ⟨hasks, hopened, ⟨reply, rfl, hreply⟩, hknown⟩ := h
  obtain ⟨pair, hpair⟩ := Option.isSome_iff_exists.mp hopened
  rw [after_asks_of_reply hasks hpair, Selector.select_fst_of_known hreply hknown]

theorem after_asks_of_unresolved {x : Occasion} (hasks : x.operation.Asks)
    (h : ∀ fp, ¬x.Resolves fp) : x.after = x.before := by
  obtain ⟨s, o, outcome⟩ := x
  cases hpair : s.pair with
  | none => exact after_asks_of_none hasks hpair
  | some pair =>
    cases outcome with
    | error e => exact after_asks_of_error hasks
    | ok reply =>
      rw [after_asks_of_reply hasks hpair, Selector.select_fst_of_unknown]
      intro fp hreply hknown
      exact h fp ⟨hasks, by simp [hpair], ⟨reply, rfl, hreply⟩, hknown⟩

theorem after_initialise (pair : Pair) (paths : List Path) :
    (⟨s, .initialise pair paths, outcome⟩ : Occasion).after
      = { s with pair := some pair, paths := .ofList paths, lastGood := none } := rfl

theorem after_setPreferences (preferences : Texts) :
    (⟨s, .setPreferences preferences, outcome⟩ : Occasion).after = { s with preferences } := by
  simp [after, Selector.step, Selector.settle_tellPair_fst]

theorem after_pathDown (down : Fingerprint) (interface : Interface) :
    (⟨s, .pathDown down interface, outcome⟩ : Occasion).after
      = { s with paths := s.paths.erase down, lastGood := s.lastGood.filter (· ≠ down) } := by
  simp [after, Selector.step, Selector.settle_tellPair_fst]

theorem after_refresh (paths : List Path) :
    (⟨s, .refresh paths, outcome⟩ : Occasion).after = s.rebuild paths := by
  simp [after, Selector.step, Selector.settle_tellPair_fst]

theorem after_close : (⟨s, .close, outcome⟩ : Occasion).after
    = { s with pair := none, paths := ∅, lastGood := none } := by
  simp only [after, Selector.step]
  split <;> rfl

theorem not_resolves_of_not_asks {x : Occasion} (h : ¬x.operation.Asks) (fp : Fingerprint) :
    ¬x.Resolves fp := fun hresolves => h hresolves.asks

/-- The last selection after an operation is what the operation resolved, or else the one before,
if the operation retains it. -/
theorem lastGood_after (x : Occasion) (fp : Fingerprint) :
    x.after.lastGood = some fp ↔ x.Resolves fp ∨
      (x.operation.Retains fp ∧ ∀ other, ¬x.Resolves other) ∧ x.before.lastGood = some fp := by
  obtain ⟨s, o, outcome⟩ := x
  -- a question retains whatever it does not replace
  by_cases hasks : o.Asks
  · have hretains : o.Retains fp := by rcases hasks with rfl | rfl <;> trivial
    by_cases hresolved : ∃ other, (⟨s, o, outcome⟩ : Occasion).Resolves other
    · obtain ⟨other, hother⟩ := hresolved
      rw [hother.after_eq]
      constructor
      · rintro ⟨⟩
        exact .inl hother
      · rintro (h | ⟨⟨-, hnone⟩, -⟩)
        · exact congrArg Selector.lastGood (hother.after_eq.symm.trans h.after_eq)
        · exact absurd hother (hnone other)
    · have hnone := not_exists.mp hresolved
      rw [after_asks_of_unresolved hasks hnone]
      simp [hnone, hretains]
  · have hnone := not_resolves_of_not_asks (x := ⟨s, o, outcome⟩) hasks
    simp only [hnone, false_or, not_false_eq_true, implies_true, and_true]
    cases o with
    | initialise pair paths => simp [after_initialise, Operation.Retains]
    | setPreferences preferences => simp [after_setPreferences, Operation.Retains]
    | path => exact absurd (.inl rfl) hasks
    | tryPath => exact absurd (.inr rfl) hasks
    | pathDown down interface =>
      simp [after_pathDown, Operation.Retains, Option.filter_eq_some_iff, and_comm, ne_comm]
    | refresh paths =>
      simp [after_refresh, Operation.Retains, Selector.rebuild, Option.filter_eq_some_iff,
        PathTable.contains_ofList, and_comm]
    | close => simp [after_close, Operation.Retains]

theorem after_asks {x : Occasion} (hasks : x.operation.Asks) :
    ∃ lastGood, x.after = { x.before with lastGood } := by
  by_cases h : ∃ fp, x.Resolves fp
  · obtain ⟨fp, hfp⟩ := h
    exact ⟨some fp, hfp.after_eq⟩
  · exact ⟨x.before.lastGood, after_asks_of_unresolved hasks (not_exists.mp h)⟩

theorem paths_after (x : Occasion) (fp : Fingerprint) (p : Path) :
    x.after.paths[fp]? = some p ↔ x.operation.Lists fp p ∨
      x.operation.Spares fp ∧ x.before.paths[fp]? = some p := by
  by_cases hasks : x.operation.Asks
  · obtain ⟨lastGood, hafter⟩ := after_asks hasks
    rw [hafter]
    rcases hasks with h | h <;> simp [h, Operation.Lists, Operation.Spares, Operation.listed?]
  · obtain ⟨s, o, outcome⟩ := x
    cases o with
    | initialise pair paths =>
      simp [after_initialise, Operation.Lists, Operation.Spares, Operation.listed?,
        PathTable.getElem?_ofList]
    | setPreferences preferences =>
      simp [after_setPreferences, Operation.Lists, Operation.Spares, Operation.listed?]
    | path => exact absurd (.inl rfl) hasks
    | tryPath => exact absurd (.inr rfl) hasks
    | pathDown down interface =>
      by_cases h : down = fp <;>
        simp [after_pathDown, Operation.Lists, Operation.Spares, Operation.listed?,
          Std.ExtTreeMap.getElem?_erase, h]
    | refresh paths =>
      simp [after_refresh, Operation.Lists, Operation.Spares, Operation.listed?,
        Selector.rebuild, PathTable.getElem?_ofList]
    | close => simp [after_close, Operation.Lists, Operation.Spares, Operation.listed?]

end Occasion

structure Selector.Coherent (s : Selector) : Prop where
  known : ∀ fp, s.lastGood = some fp → ∃ p, s.paths[fp]? = some p
  opened : s.pair = none → s.lastGood = none

theorem Selector.coherent_start : Selector.start.Coherent :=
  ⟨by rintro fp ⟨⟩, fun _ => rfl⟩

theorem Selector.Coherent.after {x : Occasion} (h : x.before.Coherent) : x.after.Coherent := by
  -- only an answer sets the last selection; the other operations keep it or drop it
  by_cases hasks : x.operation.Asks
  · by_cases hresolved : ∃ fp, x.Resolves fp
    · obtain ⟨fp, hfp⟩ := hresolved
      rw [hfp.after_eq]
      refine ⟨?_, fun hnone => absurd hnone (Option.isSome_iff_ne_none.mp hfp.opened)⟩
      rintro _ ⟨⟩
      have hknown := hfp.known
      rw [Std.ExtTreeMap.contains_eq_isSome_getElem?] at hknown
      exact Option.isSome_iff_exists.mp hknown
    · rwa [Occasion.after_asks_of_unresolved hasks (not_exists.mp hresolved)]
  · obtain ⟨s, o, outcome⟩ := x
    have hknown : ∀ fp, s.lastGood = some fp → ∃ p, s.paths[fp]? = some p := h.known
    have hopened : s.pair = none → s.lastGood = none := h.opened
    cases o with
    | initialise pair paths => exact ⟨by rintro fp ⟨⟩, by rintro ⟨⟩⟩
    | setPreferences preferences =>
      rw [Occasion.after_setPreferences]
      exact ⟨hknown, hopened⟩
    | path => exact absurd (.inl rfl) hasks
    | tryPath => exact absurd (.inr rfl) hasks
    | pathDown down interface =>
      rw [Occasion.after_pathDown]
      refine ⟨fun fp hfp => ?_, fun hnone => congrArg (Option.filter _) (hopened hnone)⟩
      obtain ⟨hlast, hne⟩ := Option.filter_eq_some_iff.mp hfp
      have hother : down ≠ fp := (of_decide_eq_true hne).symm
      obtain ⟨p, hp⟩ := hknown fp hlast
      exact ⟨p, by simpa [Std.ExtTreeMap.getElem?_erase, hother] using hp⟩
    | refresh paths =>
      rw [Occasion.after_refresh]
      refine ⟨fun fp hfp => ?_, fun hnone => congrArg (Option.filter _) (hopened hnone)⟩
      have hcontains := (Option.filter_eq_some_iff.mp hfp).2
      rw [Std.ExtTreeMap.contains_eq_isSome_getElem?] at hcontains
      exact Option.isSome_iff_exists.mp hcontains
    | close =>
      rw [Occasion.after_close]
      exact ⟨by rintro fp ⟨⟩, fun _ => rfl⟩

/-! ### Results -/

namespace Occasion
variable {s : Selector}

theorem step_asks_of_none {o : Operation} (ho : o.Asks) (h : s.pair = none) :
    s.step o = .silent s (.ok none) := by
  rcases ho with rfl | rfl <;> simp [Selector.step, Selector.askPath, h]

theorem result_of_reply {o : Operation} (ho : o.Asks) (h : s.pair.isSome) (reply : Message) :
    (⟨s, o, .ok reply⟩ : Occasion).result
      = .ok (reply.fingerprint.bind fun fp => s.paths[fp]?) := by
  obtain ⟨pair, hpair⟩ := Option.isSome_iff_exists.mp h
  rw [← Selector.select_snd]
  rcases ho with rfl | rfl <;> simp [result, Selector.step, Selector.settle_askPath_of_some hpair]

theorem result_path_of_error (h : s.pair.isSome) (e : Fault) :
    (⟨s, .path, .error e⟩ : Occasion).result = .ok s.lastPath := by
  obtain ⟨pair, hpair⟩ := Option.isSome_iff_exists.mp h
  simp [result, Selector.step, Selector.settle_askPath_of_some hpair]

theorem result_tryPath_of_error (h : s.pair.isSome) (e : Fault) :
    (⟨s, .tryPath, .error e⟩ : Occasion).result = .error e := by
  obtain ⟨pair, hpair⟩ := Option.isSome_iff_exists.mp h
  simp [result, Selector.step, Selector.settle_askPath_of_some hpair]

theorem asks_of_result {x : Occasion} {p : Path} (h : x.result = .ok (some p)) :
    x.operation.Asks := by
  obtain ⟨s, o, outcome⟩ := x
  cases o with
  | path => exact .inl rfl
  | tryPath => exact .inr rfl
  | initialise pair paths => cases outcome <;> cases h
  | setPreferences preferences => simp [result, Selector.step, Selector.settle_tellPair_snd] at h
  | pathDown down interface => simp [result, Selector.step, Selector.settle_tellPair_snd] at h
  | refresh paths => simp [result, Selector.step, Selector.settle_tellPair_snd] at h
  | close =>
    simp only [result, Selector.step] at h
    split at h
    · cases h
    · cases outcome <;> cases h

theorem known_of_result {x : Occasion} {p : Path} (h : x.result = .ok (some p)) :
    ∃ fp : Fingerprint, x.before.paths[fp]? = some p := by
  have hasks := asks_of_result h
  obtain ⟨s, o, outcome⟩ := x
  cases hpair : s.pair with
  | none =>
    rw [result, step_asks_of_none hasks hpair] at h
    cases h
  | some pair =>
    have hsome : s.pair.isSome := by simp [hpair]
    cases outcome with
    | ok reply =>
      rw [result_of_reply hasks hsome] at h
      obtain ⟨fp, -, hfp⟩ := Option.bind_eq_some_iff.mp (Except.ok.inj h)
      exact ⟨fp, hfp⟩
    | error e =>
      rcases hasks with rfl | rfl
      · rw [result_path_of_error hsome] at h
        obtain ⟨fp, -, hfp⟩ := Option.bind_eq_some_iff.mp (Except.ok.inj h)
        exact ⟨fp, hfp⟩
      · rw [result_tryPath_of_error hsome] at h
        cases h

end Occasion

end PathPolicy.Client
