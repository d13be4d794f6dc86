import PathPolicy.Policies.Trial
import PathPolicy.Proofs.Json.Tree
import PathPolicy.Proofs.Vm.Tables
import PathPolicy.Vm.Machine

/-!
Values that go into the machine come out of it as they were, if their tables are not too deep. The
sequence of a table and its fields are kept apart inside: entries have whole numbers for keys, and
fields have texts, whatever the texts look like.
-/
namespace PathPolicy

namespace Script.Value

mutual

def nesting : Value → Nat
  | table sequence fields => max (nestingOfSequence sequence) (nestingOfFields fields) + 1
  | _ => 0

def nestingOfSequence : List Value → Nat
  | [] => 0
  | v :: rest => max v.nesting (nestingOfSequence rest)

def nestingOfFields : List (String × Value) → Nat
  | [] => 0
  | (_, v) :: rest => max v.nesting (nestingOfFields rest)

end

/-- No entry and no field is nil, in any of the tables. -/
inductive Full : Value → Prop
  | nil : Full nil
  | boolean (b : Bool) : Full (boolean b)
  | integer (n : Int64) : Full (integer n)
  | number (x : Float) : Full (number x)
  | text (s : String) : Full (text s)
  | table {sequence : List Value} {fields : List (String × Value)}
    (hentries : ∀ v ∈ sequence, v.isNil = false) (hsequence : ∀ v ∈ sequence, Full v)
    (hnames : ∀ f ∈ fields, f.2.isNil = false) (hfields : ∀ f ∈ fields, Full f.2) :
    Full (table sequence fields)

/-- The fields of each table stand in the order of their names. -/
inductive Ordered : Value → Prop
  | nil : Ordered nil
  | boolean (b : Bool) : Ordered (boolean b)
  | integer (n : Int64) : Ordered (integer n)
  | number (x : Float) : Ordered (number x)
  | text (s : String) : Ordered (text s)
  | table {sequence : List Value} {fields : List (String × Value)}
    (hsorted : (fields.map Prod.fst).Pairwise (· < ·)) (hsequence : ∀ v ∈ sequence, Ordered v)
    (hfields : ∀ f ∈ fields, Ordered f.2) : Ordered (table sequence fields)

section Table
variable {sequence : List Value} {fields : List (String × Value)}

theorem Full.of_table (h : (Value.table sequence fields).Full) :
    (∀ v ∈ sequence, v.isNil = false) ∧ (∀ v ∈ sequence, v.Full) ∧
      (∀ f ∈ fields, f.2.isNil = false) ∧ ∀ f ∈ fields, f.2.Full := by
  cases h with
  | table hentries hsequence hnames hfields => exact ⟨hentries, hsequence, hnames, hfields⟩

theorem Ordered.of_table (h : (Value.table sequence fields).Ordered) :
    (fields.map Prod.fst).Pairwise (· < ·) ∧ (∀ v ∈ sequence, v.Ordered) ∧
      ∀ f ∈ fields, f.2.Ordered := by
  cases h with
  | table hsorted hsequence hfields => exact ⟨hsorted, hsequence, hfields⟩

theorem nestingOfSequence_le_iff {n : Nat} :
    nestingOfSequence sequence ≤ n ↔ ∀ v ∈ sequence, v.nesting ≤ n := by
  induction sequence with
  | nil => simp [nestingOfSequence]
  | cons v rest ih => simp [nestingOfSequence, ih]

theorem nestingOfFields_le_iff {n : Nat} :
    nestingOfFields fields ≤ n ↔ ∀ f ∈ fields, f.2.nesting ≤ n := by
  induction fields with
  | nil => simp [nestingOfFields]
  | cons f rest ih => simp [nestingOfFields, ih]

theorem nesting_table_le_iff {n : Nat} :
    (table sequence fields).nesting ≤ n + 1
      ↔ (∀ v ∈ sequence, v.nesting ≤ n) ∧ ∀ f ∈ fields, f.2.nesting ≤ n := by
  rw [nesting, Nat.succ_le_succ_iff, Nat.max_le, nestingOfSequence_le_iff, nestingOfFields_le_iff]

end Table

end Script.Value

namespace Vm
open Script (Value)

/-! ### Tables inside the machine -/

theorem isNil_ofScript (v : Script.Value) : (ofScript v).isNil = v.isNil := by
  cases v <;> rfl

theorem ofFields_eq_map {fields : List (String × Script.Value)}
    (h : ∀ f ∈ fields, f.2.isNil = false) :
    ofFields fields = fields.map fun f => (.text f.1, ofScript f.2) := by
  induction fields with
  | nil => rfl
  | cons f rest ih =>
    obtain ⟨name, v⟩ := f
    have hrest := ih fun f hf => h f (List.mem_cons_of_mem _ hf)
    have hv : v.isNil = false := h (name, v) List.mem_cons_self
    have hne : v ≠ .nil := by
      rintro rfl
      cases hv
    rw [ofFields, hrest, List.map_cons]
    exact hne

theorem border_of_filled {array : List Vm.Value} (h : ∀ v ∈ array, v.isNil = false) :
    border array = array.length := by
  rw [border]
  by_cases hempty : array.length = 0
  · rw [if_pos hempty, hempty]
  · have hlast : array.length - 1 < array.length := by omega
    have hfilled := h _ (List.getElem_mem hlast)
    rw [if_neg hempty, if_pos (by simp [List.getElem?_eq_getElem hlast, hfilled])]

theorem mapM_map_ite {α β γ ε : Type} {f : α → β} {g : β → Except ε γ} {h : α → γ} {e : ε}
    {fine : α → Prop} [DecidablePred fine] {xs : List α}
    (hg : ∀ x ∈ xs, g (f x) = if fine x then .ok (h x) else .error e) :
    (xs.map f).mapM g = if ∀ x ∈ xs, fine x then .ok (xs.map h) else .error e := by
  induction xs with
  | nil => rfl
  | cons x xs ih =>
    rw [List.map_cons, List.mapM_cons, hg x List.mem_cons_self,
      ih fun y hy => hg y (List.mem_cons_of_mem x hy)]
    simp only [List.forall_mem_cons]
    by_cases hx : fine x
    · by_cases hxs : ∀ y ∈ xs, fine y
      · rw [if_pos hx, if_pos hxs, if_pos ⟨hx, hxs⟩]
        rfl
      · rw [if_pos hx, if_neg hxs, if_neg fun hall => hxs hall.2]
        rfl
    · have hnone : ¬(fine x ∧ ∀ y ∈ xs, fine y) := fun hall => hx hall.1
      rw [if_neg hx, if_neg hnone]
      rfl

def fieldToScript (levels : Nat) (entry : Key × Value) : Except Fault (String × Script.Value) := do
  let name ← fieldName entry.1
  let v ← toScript levels entry.2
  return (name, v)

/-- All entries of an array without nil are the sequence, and nothing else becomes a field than what
was one. -/
theorem toScript_table {sequence : List Script.Value} {fields : List (String × Script.Value)}
    (hentries : ∀ v ∈ sequence, v.isNil = false) (hnames : ∀ f ∈ fields, f.2.isNil = false)
    (levels : Nat) : toScript (levels + 1) (ofScript (.table sequence fields)) = do
      let sequence ← (sequence.map ofScript).mapM (toScript levels)
      let fields ← (fields.map fun f => (.text f.1, ofScript f.2)).mapM (fieldToScript levels)
      return .table sequence (Members.ofList fields) := by
  have hfilled : ∀ w ∈ sequence.map ofScript, w.isNil = false := by
    intro w hw
    obtain ⟨v, hv, rfl⟩ := List.mem_map.mp hw
    rw [isNil_ofScript, hentries v hv]
  rw [ofScript, toScript, ofSequence_eq_map, ofFields_eq_map hnames]
  dsimp only
  rw [border_of_filled hfilled, List.take_length, List.drop_length, remaining, List.nil_append]
  rfl

def tooDeep : Fault := .policy "table nesting exceeds 32 levels (cyclic table?)"

theorem toScript_ofScript {v : Script.Value} (hfull : v.Full) (hordered : v.Ordered)
    (levels : Nat) :
    toScript levels (ofScript v) = if v.nesting ≤ levels then .ok v else .error tooDeep := by
  -- on the levels, of which entries and fields have one less
  induction levels generalizing v with
  | zero =>
    cases v with
    | table sequence fields =>
      rw [if_neg (by simp [Script.Value.nesting])]
      rfl
    | _ => rfl
  | succ levels ih =>
    cases v with
    | table sequence fields =>
      obtain ⟨hentries, hsequence, hnames, hfields⟩ := hfull.of_table
      obtain ⟨hsorted, hsequence', hfields'⟩ := hordered.of_table
      have hread : (sequence.map ofScript).mapM (toScript levels) =
          if ∀ v ∈ sequence, v.nesting ≤ levels then .ok (sequence.map id) else .error tooDeep :=
        mapM_map_ite fun v hv => ih (hsequence v hv) (hsequence' v hv)
      have hread' : (fields.map fun f => (Key.text f.1, ofScript f.2)).mapM (fieldToScript levels) =
          if ∀ f ∈ fields, f.2.nesting ≤ levels then .ok (fields.map id) else .error tooDeep := by
        apply mapM_map_ite
        intro f hf
        rw [fieldToScript, ih (hfields f hf) (hfields' f hf)]
        split <;> rfl
      rw [toScript_table hentries hnames, hread, hread', List.map_id, List.map_id]
      by_cases hs : ∀ v ∈ sequence, v.nesting ≤ levels
      · by_cases hf : ∀ f ∈ fields, f.2.nesting ≤ levels
        · rw [if_pos hs, if_pos hf, if_pos (Script.Value.nesting_table_le_iff.mpr ⟨hs, hf⟩)]
          exact congrArg (fun fields => Except.ok (Script.Value.table sequence fields))
            (Members.ofList_of_sorted hsorted)
        · rw [if_pos hs, if_neg hf,
            if_neg fun h => hf (Script.Value.nesting_table_le_iff.mp h).2]
          rfl
      · rw [if_neg hs, if_neg fun h => hs (Script.Value.nesting_table_le_iff.mp h).1]
        rfl
    | _ => rfl

end Vm

/-! ### Candidates -/

namespace Members
variable {α : Type} {key : String} {members : List (String × α)}

theorem mem_of_mem_insert {value : α} {m : String × α} (h : m ∈ insert key value members) :
    m = (key, value) ∨ m ∈ members := by
  induction members with
  | nil => simpa [insert] using h
  | cons first rest ih =>
    rw [insert] at h
    split at h
    · simp only [List.mem_cons] at h ⊢
      tauto
    · split at h
      · simpa using h
      · simp only [List.mem_cons] at h ⊢
        tauto

theorem erase_sublist (key : String) (members : List (String × α)) :
    (erase key members).Sublist members := by
  induction members with
  | nil => exact List.Sublist.refl _
  | cons first rest ih =>
    rw [erase]
    split
    · exact List.sublist_cons_self _ _
    · exact ih.cons_cons first

theorem sorted_insert (h : (members.map Prod.fst).Pairwise (· < ·)) (value : α) :
    ((insert key value members).map Prod.fst).Pairwise (· < ·) := by
  induction members with
  | nil => simp [insert]
  | cons first rest ih =>
    obtain ⟨k, x⟩ := first
    rw [List.map_cons, List.pairwise_cons] at h
    obtain ⟨hfirst, hrest⟩ := h
    rw [insert]
    split
    next heq =>
      subst heq
      exact List.pairwise_cons.mpr ⟨hfirst, hrest⟩
    next hne =>
      split
      next hlt =>
        refine List.pairwise_cons.mpr ⟨?_, List.pairwise_cons.mpr ⟨hfirst, hrest⟩⟩
        intro name hname
        rcases List.mem_cons.mp hname with rfl | hname
        · exact hlt
        · exact String.lt_trans hlt (hfirst name hname)
      next hge =>
        refine List.pairwise_cons.mpr ⟨?_, ih hrest⟩
        intro name hname
        obtain ⟨m, hm, rfl⟩ := List.mem_map.mp hname
        rcases mem_of_mem_insert hm with rfl | hm
        · exact Std.lt_of_le_of_ne (String.not_lt.mp hge) (Ne.symm hne)
        · exact hfirst m.1 (List.mem_map_of_mem hm)

end Members

namespace Script

/-- The value is whole, and its tables are at most so many levels deep. -/
structure Value.Crosses (levels : Nat) (v : Value) : Prop where
  full : v.Full
  ordered : v.Ordered
  shallow : v.nesting ≤ levels

namespace Value.Crosses
variable {levels : Nat}

theorem integer (n : Int64) : (Value.integer n).Crosses levels :=
  ⟨.integer n, .integer n, Nat.zero_le levels⟩

theorem number (x : Float) : (Value.number x).Crosses levels :=
  ⟨.number x, .number x, Nat.zero_le levels⟩

theorem text (s : String) : (Value.text s).Crosses levels :=
  ⟨.text s, .text s, Nat.zero_le levels⟩

theorem ofUInt64 (n : UInt64) : (Value.ofUInt64 n).Crosses levels := by
  rw [Value.ofUInt64]
  split
  · exact integer _
  · exact text _

theorem table {sequence : List Value} {fields : List (String × Value)}
    (hentries : ∀ v ∈ sequence, v.isNil = false) (hsequence : ∀ v ∈ sequence, v.Crosses levels)
    (hsorted : (fields.map Prod.fst).Pairwise (· < ·)) (hnames : ∀ f ∈ fields, f.2.isNil = false)
    (hfields : ∀ f ∈ fields, f.2.Crosses levels) :
    (Value.table sequence fields).Crosses (levels + 1) where
  full := .table hentries (fun v hv => (hsequence v hv).full) hnames
    fun f hf => (hfields f hf).full
  ordered := .table hsorted (fun v hv => (hsequence v hv).ordered)
    fun f hf => (hfields f hf).ordered
  shallow := nesting_table_le_iff.mpr
    ⟨fun v hv => (hsequence v hv).shallow, fun f hf => (hfields f hf).shallow⟩

theorem ofList {α : Type} {value : α → Value} (hnil : ∀ x, (value x).isNil = false)
    (h : ∀ x, (value x).Crosses levels) (xs : List α) :
    (Value.ofList value xs).Crosses (levels + 1) := by
  refine table ?_ ?_ List.Pairwise.nil (List.forall_mem_nil _) (List.forall_mem_nil _)
  · intro v hv
    obtain ⟨x, -, rfl⟩ := List.mem_map.mp hv
    exact hnil x
  · intro v hv
    obtain ⟨x, -, rfl⟩ := List.mem_map.mp hv
    exact h x

theorem ofFields {fields : List (String × Value)}
    (h : ∀ f ∈ fields, f.2.isNil = false → f.2.Crosses levels) :
    (Table.ofFields fields).value.Crosses (levels + 1) := by
  -- for any table that is in order already, to which the fields are added
  have hall : ∀ t : Table, t.sequence = [] → (t.fields.map Prod.fst).Pairwise (· < ·) →
      (∀ f ∈ t.fields, f.2.isNil = false ∧ f.2.Crosses levels) →
      (fields.foldl (fun t f => t.set f.1 f.2) t).value.Crosses (levels + 1) := by
    induction fields with
    | nil =>
      intro t hsequence hsorted hfields
      rw [List.foldl_nil, Table.value, hsequence]
      exact table (List.forall_mem_nil _) (List.forall_mem_nil _) hsorted
        (fun f hf => (hfields f hf).1) fun f hf => (hfields f hf).2
    | cons first rest ih =>
      obtain ⟨key, v⟩ := first
      intro t hsequence hsorted hfields
      refine ih (fun f hf => h f (List.mem_cons_of_mem _ hf)) (t.set key v) ?_ ?_ ?_
      · rw [Table.set]
        split <;> exact hsequence
      · rw [Table.set]
        split
        · exact hsorted.sublist ((Members.erase_sublist key t.fields).map Prod.fst)
        · exact Members.sorted_insert hsorted v
      · rw [Table.set]
        split
        · exact fun f hf => hfields f ((Members.erase_sublist key t.fields).subset hf)
        next hv =>
          intro f hf
          rcases Members.mem_of_mem_insert hf with rfl | hf
          · have hv' : v.isNil = false := by simpa using hv
            exact ⟨hv', h (key, v) List.mem_cons_self hv'⟩
          · exact hfields f hf
  exact hall .empty rfl List.Pairwise.nil (List.forall_mem_nil _)

end Value.Crosses
end Script

section Candidates
open Script.Value (Crosses)

theorem Interface.crosses_toScript (i : Interface) : i.toScript.Crosses 1 := by
  apply Crosses.ofFields
  simp [Crosses.text, Crosses.ofUInt64]

theorem Location.crosses_toScript (l : Location) : l.toScript.Crosses 1 := by
  apply Crosses.ofFields
  simp [Crosses.text, Crosses.number]

theorem Metadata.crosses_toScript (m : Metadata) : m.toScript.Crosses 3 := by
  apply Crosses.ofFields
  intro f hf _
  simp only [List.mem_cons, List.not_mem_nil, or_false] at hf
  rcases hf with rfl | rfl | rfl | rfl | rfl | rfl | rfl | rfl
  · exact Crosses.integer _
  · exact Crosses.ofList (fun _ => rfl) Interface.crosses_toScript m.interfaces
  · exact Crosses.ofList (fun _ => Script.Value.isNil_ofUInt64 _) (fun _ => Crosses.ofUInt64 _)
      m.latency
  · exact Crosses.ofList Script.Value.isNil_ofUInt64 Crosses.ofUInt64 m.bandwidth
  · exact Crosses.ofList (fun _ => rfl) (fun _ => Crosses.integer _) m.linkTypes
  · exact Crosses.ofList (fun _ => rfl) (fun _ => Crosses.integer _) m.internalHops
  · exact Crosses.ofList (fun _ => rfl) Crosses.text m.notes
  · exact Crosses.ofList (fun _ => rfl) Location.crosses_toScript m.locations

theorem Path.crosses_toScript (p : Path) : p.toScript.Crosses 4 := by
  apply Crosses.ofFields
  intro f hf hnil
  simp only [List.mem_cons, List.not_mem_nil, or_false] at hf
  rcases hf with rfl | rfl | rfl | rfl | rfl
  · exact Crosses.text _
  · exact Crosses.text _
  · exact Crosses.text _
  · exact Crosses.ofUInt64 _
  · cases hm : p.metadata with
    | none =>
      rw [hm] at hnil
      cases hnil
    | some m => exact m.crosses_toScript

end Candidates

/-! ### There and back -/

theorem Script.Value.Crosses.toScript_ofScript {levels : Nat} {v : Script.Value}
    (h : v.Crosses levels) : Vm.toScript levels (Vm.ofScript v) = .ok v := by
  rw [Vm.toScript_ofScript h.full h.ordered, if_pos h.shallow]

theorem Script.Value.Crosses.mono {levels more : Nat} {v : Script.Value} (h : v.Crosses levels)
    (hle : levels ≤ more) : v.Crosses more :=
  ⟨h.full, h.ordered, h.shallow.trans hle⟩

namespace Vm

theorem call_of_function {σ : Type} {policy : Policy σ} {m : Machine σ} {s : σ} {c : Script.Call}
    {run : σ → List Value → Effect σ} {results : List Value} (hm : m.state = some s)
    (hbinding : policy.binding? s c.moduleName c.function = some (.function run))
    (hrun : (run s (c.args.map ofScript)).result = .ok results) :
    (Machine.call policy c m).1 = results.mapM (toScript maxDepth) := by
  rw [Machine.call, hm]
  simp only [hbinding, Option.getD_some, hrun, Machine.outcome]

/-- A value without nil inside comes back as it went in if its tables are at most 32 levels deep,
and is refused if they are deeper. So a function that gives back a candidate as it got it is
understood to have meant that candidate. -/
theorem values_cross_intact :
    (∀ v : Script.Value, v.Full → v.Ordered →
      (v.nesting ≤ 32 → toScript maxDepth (ofScript v) = .ok v) ∧
      (32 < v.nesting → toScript maxDepth (ofScript v) =
        .error (.policy "table nesting exceeds 32 levels (cyclic table?)"))) ∧
    ∀ (p : Path) {σ : Type} (policy : Policy σ) (m : Machine σ) (s : σ) (c : Script.Call)
      (run : σ → List Value → Effect σ), m.state = some s →
      policy.binding? s c.moduleName c.function = some (.function run) →
      (run s (c.args.map ofScript)).result = .ok [ofScript p.toScript] →
      ∃ v, (Machine.call policy c m).1 = .ok [v] ∧ Path.ofScript v = Path.ofScript p.toScript := by
  refine ⟨fun v hfull hordered => ⟨fun hshallow => ?_, fun hdeep => ?_⟩, ?_⟩
  · exact (Script.Value.Crosses.mk hfull hordered hshallow).toScript_ofScript
  · rw [toScript_ofScript hfull hordered, if_neg (by rw [maxDepth]; omega)]
    rfl
  · intro p σ policy m s c run hm hbinding hrun
    have hback : toScript maxDepth (ofScript p.toScript) = .ok p.toScript :=
      (p.crosses_toScript.mono (by decide)).toScript_ofScript
    refine ⟨p.toScript, ?_, rfl⟩
    rw [call_of_function hm hbinding hrun, List.mapM_cons, hback]
    rfl

end Vm

/-- A table in a table and so on, each with one entry and with a field that is called as if it were
that entry. -/
def Script.Value.tower : Nat → Script.Value
  | 0 => .number (Float.ofBits 0x7ff8000000000001)
  | n + 1 => .table [tower n] [("1", .text "one")]

namespace Script.Value

theorem isNil_tower (n : Nat) : (tower n).isNil = false := by
  cases n <;> rfl

theorem full_tower (n : Nat) : (tower n).Full := by
  induction n with
  | zero => exact .number _
  | succ n ih =>
    have hfield : (text "one").isNil = false := rfl
    refine .table ?_ ?_ ?_ ?_ <;> simp [ih, isNil_tower, Full.text, hfield]

theorem ordered_tower (n : Nat) : (tower n).Ordered := by
  induction n with
  | zero => exact .number _
  | succ n ih => refine .table ?_ ?_ ?_ <;> simp [ih, Ordered.text]

theorem nesting_tower (n : Nat) : (tower n).nesting = n := by
  induction n with
  | zero => rfl
  | succ n ih => simp [tower, nesting, nestingOfSequence, nestingOfFields, ih]

end Script.Value

namespace Vm
open Script.Value (tower)

def slowPath : Path :=
  ⟨"here", "there", some ⟨1500, [], [2 ^ 63], [5], [], [], ["1"], []⟩, "slow", .epoch⟩

theorem values_cross_intact_tower :
    toScript maxDepth (ofScript (tower 32)) = .ok (tower 32) ∧
      toScript maxDepth (ofScript (tower 33)) =
        .error (.policy "table nesting exceeds 32 levels (cyclic table?)") ∧
      ∃ v, (Machine.call Policies.echo ⟨"panapi", "Path", [slowPath.toScript]⟩
          { (Machine.start : Machine Unit) with state := some () }).1 = .ok [v] ∧
        Path.ofScript v = Path.ofScript slowPath.toScript :=
  ⟨((values_cross_intact.1 _ (Script.Value.full_tower 32) (Script.Value.ordered_tower 32)).1
      (Script.Value.nesting_tower 32).le),
    ((values_cross_intact.1 _ (Script.Value.full_tower 33) (Script.Value.ordered_tower 33)).2
      (by rw [Script.Value.nesting_tower]; decide)),
    values_cross_intact.2 slowPath Policies.echo _ () _ _ rfl rfl rfl⟩

end Vm

end PathPolicy
