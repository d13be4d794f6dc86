import PathPolicy.Proofs.Selector.History

/-!
The calls of the selector. Every operation has its call, which names the method and carries the two
addresses; questions for a path, and closings, are not put to the script unless the pair has a
session. So whether a key has a session can be told from the calls alone.
-/
namespace PathPolicy.Selector
open Script

namespace Method

theorem name_mem_entryPoints (m : Method) : m.name ∈ entryPoints := by
  cases m <;> decide

/-- The call is made only about a session. -/
def NeedsSession (m : Method) : Prop := m = path ∨ m = close

instance (m : Method) : Decidable m.NeedsSession := inferInstanceAs (Decidable (_ ∨ _))

/-- Such a call says whether there is a session from then on: there is none after a closing. -/
def Settles (m : Method) : Prop := m ∈ [initialise, setPreferences, refresh, close]

instance (m : Method) : Decidable m.Settles := inferInstanceAs (Decidable (_ ∈ _))

def leading : Method → Nat
  | initialise | setPreferences => 1
  | path | pathDown | refresh | close => 0

end Method

namespace Operation

def argumentsBefore : Operation → List Value
  | initialise preferences _ | setPreferences preferences => [preferencesToScript preferences]
  | path | pathDown _ _ | refresh _ | close => []

def argumentsAfter : Operation → List Value
  | initialise _ paths | refresh paths => [Path.listToScript paths]
  | pathDown fp interface => [.text fp, interface.toScript]
  | setPreferences _ | path | close => []

def call (p : Pair) (o : Operation) : Call := p.call o.method o.argumentsBefore o.argumentsAfter

theorem call?_plan (p : Pair) (t : SessionTable) (o : Operation) : (o.plan p t).call?
    = if o.method.NeedsSession → t.contains p.key then some (o.call p) else none := by
  cases o with
  | initialise _ _ | setPreferences _ | pathDown _ _ | refresh _ => rfl
  | path | close =>
    rw [plan]
    cases h : t.contains p.key <;> simp [method, Method.NeedsSession] <;> rfl

theorem entry_of_plan {p : Pair} {t : SessionTable} {o : Operation} {c : Call}
    (h : (o.plan p t).call? = some c) : c.moduleName = scriptModule ∧ c.function ∈ entryPoints := by
  rw [call?_plan] at h
  split at h <;> cases h
  exact ⟨rfl, o.method.name_mem_entryPoints⟩

theorem contains_tables_plan (p : Pair) (t : SessionTable) (o : Operation) (key : String) :
    (o.plan p t).tables.contains key
      ↔ if p.key = key then o.Opens ∨ o ≠ close ∧ t.contains key else t.contains key := by
  simp only [Std.ExtTreeMap.contains_eq_isSome_getElem?, getElem?_tables_plan]
  split
  · exact isSome_onSession o _
  · rfl

end Operation

/-! ### From the calls -/

/-- The method and the addresses that a call is about. -/
def addressed? (c : Call) : Option (Method × Pair) :=
  if c.moduleName = scriptModule then
    match Method.ofName c.function with
    | .error _ => none
    | .ok method =>
      match c.args.drop method.leading with
      | .text localAddress :: .text remoteAddress :: _ =>
        some (method, ⟨localAddress, remoteAddress⟩)
      | _ => none
  else none

theorem addressed?_of_ne {c : Call} (h : c.moduleName ≠ scriptModule) : addressed? c = none :=
  if_neg h

@[simp] theorem addressed?_call (p : Pair) (o : Operation) :
    addressed? (o.call p) = some (o.method, p) := by
  have hmodule : (o.call p).moduleName = scriptModule := rfl
  have hfunction : Method.ofName (o.call p).function = .ok o.method := Method.ofName_name o.method
  rw [addressed?, if_pos hmodule, hfunction]
  cases o <;> rfl

@[simp] theorem addressed?_periodicCall (elapsed : Nat) : addressed? (periodicCall elapsed) = none := by
  have hfunction : Method.ofName periodicFunction = .error (.unknownMethod "Selector.Periodic") := by
    decide
  rw [addressed?, periodicCall, if_pos rfl]
  dsimp only
  rw [hfunction]

def membership? (key : String) (c : Call) : Option Method :=
  (addressed? c).bind fun (method, p) => if p.key = key ∧ method.Settles then some method else none

theorem membership?_eq_some_iff {key : String} {c : Call} {method : Method} :
    membership? key c = some method
      ↔ method.Settles ∧ ∃ p, addressed? c = some (method, p) ∧ p.key = key := by
  rw [membership?]
  cases addressed? c with
  | none => simp
  | some entry =>
    obtain ⟨method', p⟩ := entry
    simp only [Option.bind_some, Option.ite_none_right_eq_some, Option.some.injEq, Prod.mk.injEq]
    grind

/-- Of the calls that say whether the key has a session there is a latest one, and it is not a
closing. -/
def Attested (key : String) (calls : List Call) : Prop :=
  ∃ method, (calls.filterMap (membership? key)).getLast? = some method ∧ method ≠ .close

@[simp] theorem not_attested_nil (key : String) : ¬Attested key [] := by simp [Attested]

theorem attested_append_singleton (key : String) (calls : List Call) (c : Call) :
    Attested key (calls ++ [c]) ↔ match membership? key c with
      | none => Attested key calls
      | some method => method ≠ .close := by
  cases h : membership? key c <;> simp [Attested, h]

theorem attested_append_of_none {key : String} {c : Call} (h : addressed? c = none)
    (calls : List Call) : Attested key (calls ++ [c]) ↔ Attested key calls := by
  rw [attested_append_singleton, membership?, h]
  rfl

theorem Attested.opened {key : String} {before between : List Call} {c : Call}
    (h : Attested key (before ++ c :: between)) (hclose : membership? key c = some .close) :
    ∃ opening ∈ between, ∃ method, membership? key opening = some method ∧ method ≠ .close := by
  obtain ⟨method, hlast, hmethod⟩ := h
  rw [List.filterMap_append, List.filterMap_cons_some hclose, List.getLast?_append,
    List.getLast?_cons, Option.some_or, Option.some.injEq] at hlast
  cases hbetween : (between.filterMap (membership? key)).getLast? with
  | none => exact absurd (by rw [← hlast, hbetween]; rfl) hmethod
  | some method' =>
    obtain rfl : method' = method := by rw [← hlast, hbetween]; rfl
    obtain ⟨opening, hopening, hmembership⟩ :=
      List.mem_filterMap.mp (List.mem_of_getLast? hbetween)
    exact ⟨opening, hopening, method', hmembership, hmethod⟩

theorem attested_call (key : String) (calls : List Call) (p : Pair) (o : Operation) :
    Attested key (calls ++ [o.call p])
      ↔ if p.key = key ∧ o.method.Settles then o.method ≠ .close else Attested key calls := by
  have hmembership : membership? key (o.call p)
      = if p.key = key ∧ o.method.Settles then some o.method else none := by simp [membership?]
  rw [attested_append_singleton, hmembership]
  by_cases hsettles : p.key = key ∧ o.method.Settles
  · rw [if_pos hsettles, if_pos hsettles]
  · rw [if_neg hsettles, if_neg hsettles]

theorem Operation.attested_plan {key : String} {t : SessionTable} {calls : List Call}
    (h : t.contains key ↔ Attested key calls) (p : Pair) (o : Operation) :
    (o.plan p t).tables.contains key ↔ Attested key (calls ++ (o.plan p t).call?.toList) := by
  rw [contains_tables_plan, call?_plan]
  by_cases hkey : p.key = key
  · subst hkey
    by_cases hcall : o.method.NeedsSession → t.contains p.key
    · rw [if_pos hcall, Option.toList_some, attested_call]
      cases o <;> simp_all [method, Method.NeedsSession, Method.Settles, Opens]
    · rw [if_neg hcall, Option.toList_none, List.append_nil]
      cases o <;> simp_all [method, Method.NeedsSession, Opens]
  · rw [if_neg hkey, h]
    split
    · simp [attested_call, hkey]
    · simp

end PathPolicy.Selector
