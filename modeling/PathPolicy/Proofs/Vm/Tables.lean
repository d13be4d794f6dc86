import Mathlib.Data.List.TakeWhile
import PathPolicy.Path.Table
import PathPolicy.Vm.Policy
import PathPolicy.Vm.Exchange

/-! What a script finds in the tables that the host hands over. -/
namespace PathPolicy

/-! ### Named fields -/

namespace Script.Table

theorem get?_set_of_ne (t : Table) {key other : String} (h : key ≠ other) (v : Value) :
    (t.set key v).get? other = t.get? other := by
  rw [set]
  split
  · exact Members.find?_erase_of_ne h t.fields
  · exact Members.find?_insert_of_ne h v t.fields

theorem erase_of_find?_eq_none {α : Type} {key : String} {members : List (String × α)}
    (h : Members.find? key members = none) : Members.erase key members = members := by
  induction members with
  | nil => rfl
  | cons m rest ih =>
    obtain ⟨k, x⟩ := m
    rw [Members.find?] at h
    split at h
    · cases h
    · rename_i hne
      rw [Members.erase, if_neg hne, ih h]

theorem get?_set_new {t : Table} {key : String} (h : t.get? key = none) (v : Value) :
    (t.set key v).get? key = if v.isNil then none else some v := by
  rw [set]
  split
  · rename_i hv
    rw [get?, erase_of_find?_eq_none h]
    exact h
  · rw [get?]
    exact Members.find?_insert_self key v t.fields

theorem get?_foldl_of_absent {name : String} {fields : List (String × Value)}
    (h : name ∉ fields.map Prod.fst) (t : Table) :
    (fields.foldl (fun t (key, v) => t.set key v) t).get? name = t.get? name := by
  induction fields generalizing t with
  | nil => rfl
  | cons field rest ih =>
    obtain ⟨key, v⟩ := field
    rw [List.map_cons, List.mem_cons, not_or] at h
    rw [List.foldl_cons, ih h.2, get?_set_of_ne t (Ne.symm h.1)]

theorem get?_ofFields {name : String} {v : Value} {fields : List (String × Value)}
    (hnodup : (fields.map Prod.fst).Nodup) (h : (name, v) ∈ fields) :
    (ofFields fields).get? name = if v.isNil then none else some v := by
  obtain ⟨before, after, rfl⟩ := List.append_of_mem h
  simp only [List.map_append, List.map_cons, List.nodup_append, List.nodup_cons,
    List.mem_cons] at hnodup
  obtain ⟨-, ⟨hafter, -⟩, hbefore⟩ := hnodup
  have hbefore' : name ∉ before.map Prod.fst := fun hm => hbefore name hm name (Or.inl rfl) rfl
  have hnone : (ofFields before).get? name = none := get?_foldl_of_absent hbefore' empty
  rw [ofFields, List.foldl_append, List.foldl_cons, get?_foldl_of_absent hafter]
  exact get?_set_new hnone v

theorem foldl_set_of_filled {fields : List (String × Value)} (h : ∀ f ∈ fields, f.2.isNil = false)
    (t : Table) : fields.foldl (fun t (key, v) => t.set key v) t
      = ⟨t.sequence, fields.foldl (fun members (k, x) => Members.insert k x members) t.fields⟩ := by
  induction fields generalizing t with
  | nil => rfl
  | cons field rest ih =>
    obtain ⟨key, v⟩ := field
    have hv : v.isNil = false := h (key, v) List.mem_cons_self
    rw [List.foldl_cons, List.foldl_cons, ih fun f hf => h f (List.mem_cons_of_mem _ hf)]
    simp only [set, hv, Bool.false_eq_true, if_false]

theorem ofFields_of_sorted {fields : List (String × Value)}
    (hsorted : (fields.map Prod.fst).Pairwise (· < ·)) (h : ∀ f ∈ fields, f.2.isNil = false) :
    ofFields fields = ⟨[], fields⟩ := by
  rw [ofFields, foldl_set_of_filled h]
  exact congrArg (Table.mk []) (Members.ofList_of_sorted hsorted)

end Script.Table

theorem Script.Value.isNil_ofUInt64 (n : UInt64) : (ofUInt64 n).isNil = false := by
  rw [ofUInt64]
  split <;> rfl

namespace Vm

theorem namedEntry_ofFields_cons (name key : String) {v : Script.Value} (hv : v.isNil = false)
    (rest : List (String × Script.Value)) :
    namedEntry name (ofFields ((key, v) :: rest)) =
      if key = name then ofScript v else namedEntry name (ofFields rest) := by
  cases v with
  | nil => cases hv
  | _ => simp [ofFields, namedEntry]

theorem namedEntry_ofFields_of_some {name : String} {v : Script.Value}
    {fields : List (String × Script.Value)} (h : Members.find? name fields = some v)
    (hv : v.isNil = false) : namedEntry name (ofFields fields) = ofScript v := by
  induction fields with
  | nil => cases h
  | cons field rest ih =>
    obtain ⟨key, w⟩ := field
    rw [Members.find?] at h
    cases hw : w.isNil with
    | true =>
      cases w with
      | nil =>
        split at h
        · cases h
          cases hv
        · rw [ofFields, ih h]
      | _ => cases hw
    | false =>
      rw [namedEntry_ofFields_cons name key hw]
      split at h
      · rename_i hkey
        cases h
        exact if_pos hkey
      · rename_i hkey
        rw [if_neg hkey, ih h]

theorem namedEntry_ofFields_of_none {name : String} {fields : List (String × Script.Value)}
    (h : Members.find? name fields = none) : namedEntry name (ofFields fields) = .nil := by
  induction fields with
  | nil => rfl
  | cons field rest ih =>
    obtain ⟨key, w⟩ := field
    rw [Members.find?] at h
    split at h
    · cases h
    · rename_i hkey
      cases hw : w.isNil with
      | true =>
        cases w with
        | nil => rw [ofFields, ih h]
        | _ => cases hw
      | false => rw [namedEntry_ofFields_cons name key hw, if_neg hkey, ih h]

theorem entry_ofFields {name : String} {v : Script.Value} {fields : List (String × Script.Value)}
    (hnodup : (fields.map Prod.fst).Nodup) (h : (name, v) ∈ fields) (whose : String) :
    entry (ofScript (Script.Table.ofFields fields).value) name whose = .ok (ofScript v) := by
  have hfind := Script.Table.get?_ofFields hnodup h
  rw [Script.Table.value, ofScript, entry]
  cases hv : v.isNil with
  | true =>
    rw [hv] at hfind
    cases v with
    | nil => rw [namedEntry_ofFields_of_none hfind, ofScript]
    | _ => cases hv
  | false =>
    rw [hv] at hfind
    rw [namedEntry_ofFields_of_some hfind hv]

/-! ### Sequences -/

theorem ofSequence_eq_map (vs : List Script.Value) : ofSequence vs = vs.map ofScript := by
  induction vs with
  | nil => rfl
  | cons v rest ih => rw [ofSequence, List.map_cons, ih]

theorem sequenceOf_ofSequence {vs : List Script.Value} (h : ∀ v ∈ vs, v.isNil = false) :
    sequenceOf (ofSequence vs) = vs.map ofScript := by
  rw [ofSequence_eq_map, sequenceOf, List.takeWhile_eq_self_iff]
  intro w hw
  obtain ⟨v, hv, rfl⟩ := List.mem_map.mp hw
  have hnil := h v hv
  cases v with
  | nil => cases hnil
  | _ => simp [ofScript, Value.isNil]

end Vm
end PathPolicy
