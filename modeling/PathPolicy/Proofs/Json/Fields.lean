import PathPolicy.Json.Record
import PathPolicy.Proofs.Json.RoundTrip

/-!
Records that are read back from their written form. It is enough that each field is, and that no
two fields have one name.
-/
namespace PathPolicy.Json

variable {α ρ : Type}

def writtenFields (x : ρ) (fields : List (Field ρ)) : List (String × Bytes) :=
  fields.filterMap fun f => (f.write x).map fun value => (f.name, value)

theorem writtenFields_cons_of_none {x : ρ} {f : Field ρ} (h : f.write x = none)
    (fields : List (Field ρ)) : writtenFields x (f :: fields) = writtenFields x fields := by
  simp [writtenFields, h]

theorem writtenFields_cons_of_some {x : ρ} {f : Field ρ} {value : Bytes}
    (h : f.write x = some value) (fields : List (Field ρ)) :
    writtenFields x (f :: fields) = (f.name, value) :: writtenFields x fields := by
  simp [writtenFields, h]

/-- Each field is read back from its written form, and what is read takes the first record to the
second. Fields that are not written keep what they are. -/
inductive Restores (depth : Nat) (x : ρ) : List (Field ρ) → ρ → ρ → Prop
  | nil (a : ρ) : Restores depth x [] a a
  | absent {f : Field ρ} {fields : List (Field ρ)} {a b : ρ} (h : f.write x = none)
    (habsence : f.absence ≠ .refused) (hrest : Restores depth x fields a b) :
    Restores depth x (f :: fields) a b
  | present {f : Field ρ} {fields : List (Field ρ)} {a b : ρ} {value : Bytes} {update : ρ → ρ}
    (h : f.write x = some value) (hread : Takes f.read depth value update)
    (hrest : Restores depth x fields (update a) b) : Restores depth x (f :: fields) a b

theorem Restores.of [Codable α] {depth : Nat} {x a b : ρ} {name : String} {absence : Absence}
    {get : ρ → α} {set : ρ → α → ρ} {fields : List (Field ρ)} (h : RoundTrips depth (get x))
    (hrest : Restores depth x fields (set a (get x)) b) :
    Restores depth x (.of name absence get set :: fields) a b :=
  .present rfl (fun budget hdepth hsteps => (h budget hdepth hsteps).map fun y r => set r y) hrest

theorem Restores.sparse [Codable α] {depth : Nat} {x a b : ρ} {name : String}
    {get : ρ → Option α} {set : ρ → Option α → ρ} {fields : List (Field ρ)}
    (h : RoundTrips depth (get x)) (hset : set a none = a)
    (hrest : Restores depth x fields (set a (get x)) b) :
    Restores depth x (.sparse name get set :: fields) a b := by
  cases hget : get x with
  | none =>
    rw [hget, hset] at hrest
    exact .absent (congrArg (Option.map Codable.write) hget) nofun hrest
  | some y =>
    rw [hget] at h hrest
    exact .present (congrArg (Option.map Codable.write) hget)
      (fun budget hdepth hsteps => (h budget hdepth hsteps).map fun y r => set r y) hrest

theorem readMember_of_find {r : Record ρ} {budget : Budget} {given : List String} {a : ρ}
    {f : Field ρ} {value : Bytes} {update : ρ → ρ}
    (hfind : (r.fields.find? fun g => g.name = f.name) = some f) (hnew : f.name ∉ given)
    (hread : Consumes (f.read budget) value update) :
    Consumes (r.readMember budget (given, a) f.name) (58 :: value) (f.name :: given, update a) := by
  intro rest hrest
  have hcolon : readColon (58 :: (value ++ rest)) = .ok (value ++ rest) := by
    simp [readColon, skipSpace_cons (b := 58) (by decide)]
  simp only [Record.readMember, hfind, List.contains_eq_mem, hnew, decide_false, Bool.false_eq_true,
    if_false, List.cons_append, hcolon, bind, Except.bind, hread rest hrest]
  rfl

theorem find?_name {fields : List (Field ρ)} (h : (fields.map Field.name).Nodup) {f : Field ρ}
    (hf : f ∈ fields) : (fields.find? fun g => g.name = f.name) = some f := by
  induction fields with
  | nil => cases hf
  | cons g fields ih =>
    rw [List.map_cons, List.nodup_cons] at h
    rcases List.mem_cons.mp hf with rfl | hf
    · simp
    · have hne : g.name ≠ f.name := fun heq => h.1 (heq ▸ List.mem_map_of_mem hf)
      simp [hne, ih h.2 hf]

theorem follows_writtenFields {r : Record ρ} {depth : Nat} {x a b : ρ} {fields : List (Field ρ)}
    (h : Restores depth x fields a b) (budget : Budget) (hdepth : depth ≤ budget.depth)
    (hsteps : ∀ m ∈ writtenFields x fields, m.2.length < budget.steps)
    (hfind : ∀ f ∈ fields, (r.fields.find? fun g => g.name = f.name) = some f)
    (hnodup : (fields.map Field.name).Nodup) (given : List String)
    (hnew : ∀ f ∈ fields, f.name ∉ given) :
    ∃ given', Follows (r.readMember budget) (writtenFields x fields) (given, a) (given', b) ∧
      given ⊆ given' ∧ ∀ f ∈ fields, f.absence = .refused → f.name ∈ given' := by
  -- on the fields, with the names given before them
  induction h generalizing given with
  | nil => exact ⟨given, .nil _, List.Subset.refl _, by simp⟩
  | @absent f fields a b hwrite habsence _ ih =>
    rw [List.map_cons, List.nodup_cons] at hnodup
    rw [writtenFields_cons_of_none hwrite] at hsteps ⊢
    obtain ⟨given', hfollows, hsub, hgiven⟩ :=
      ih hsteps (fun g hg => hfind g (List.mem_cons_of_mem f hg)) hnodup.2 given
        fun g hg => hnew g (List.mem_cons_of_mem f hg)
    exact ⟨given', hfollows, hsub, by simpa [habsence] using hgiven⟩
  | @present f fields a b value update hwrite hread _ ih =>
    rw [List.map_cons, List.nodup_cons] at hnodup
    rw [writtenFields_cons_of_some hwrite] at hsteps ⊢
    have hfresh : ∀ g ∈ fields, g.name ∉ f.name :: given := by
      intro g hg
      rw [List.mem_cons, not_or]
      exact ⟨fun heq => hnodup.1 (heq ▸ List.mem_map_of_mem hg), hnew g (List.mem_cons_of_mem f hg)⟩
    obtain ⟨given', hfollows, hsub, hgiven⟩ :=
      ih (fun m hm => hsteps m (List.mem_cons_of_mem _ hm))
        (fun g hg => hfind g (List.mem_cons_of_mem f hg)) hnodup.2 (f.name :: given) hfresh
    rw [List.cons_subset] at hsub
    refine ⟨given', .cons (readMember_of_find (hfind f List.mem_cons_self)
      (hnew f List.mem_cons_self) (hread budget hdepth (hsteps _ List.mem_cons_self))) hfollows,
      hsub.2, ?_⟩
    rintro g hg hrefused
    rcases List.mem_cons.mp hg with rfl | hg
    · exact hsub.1
    · exact hgiven g hg hrefused

theorem takes_record {r : Record ρ} {depth : Nat} {x : ρ} (hnodup : (r.fields.map Field.name).Nodup)
    (h : Restores depth x r.fields r.start x) : Takes r.read (depth + 1) (r.write x) x := by
  intro budget hdepth hsteps rest _
  obtain ⟨d, steps⟩ := budget
  obtain ⟨d, rfl⟩ := Nat.exists_eq_add_of_le' (Nat.lt_of_lt_of_le (Nat.succ_pos depth) hdepth)
  change (writeObject (writtenFields x r.fields)).length < steps at hsteps
  have hsize : ∀ m ∈ writtenFields x r.fields,
      (quotedTail m.1).length + m.2.length < steps := by
    intro m hm
    exact Nat.lt_trans (length_member_lt hm) hsteps
  obtain ⟨given, hfollows, -, hgiven⟩ := follows_writtenFields h ⟨d, steps⟩
    (Nat.le_of_succ_le_succ hdepth)
    (fun m hm => Nat.lt_of_le_of_lt (Nat.le_add_left _ _) (hsize m hm))
    (fun f hf => find?_name hnodup hf) hnodup [] (by simp)
  have hmembers := readMembers_separated hfollows
    (fun m hm => Nat.le_of_lt (Nat.lt_of_le_of_lt (Nat.le_add_right _ _) (hsize m hm)))
    (Nat.lt_trans (length_members_lt _) hsteps) rest
  have hmissing : r.missing? given = none := by
    rw [Record.missing?, List.find?_eq_none]
    intro f hf
    simpa using hgiven f hf
  have hobject : r.readObject ⟨d, steps⟩
      (separated (writeMembers (writtenFields x r.fields)) ++ 125 :: rest) = .ok (x, 125 :: rest) := by
    simp only [Record.readObject, hmembers, bind, Except.bind, hmissing]
    rfl
  change r.read ⟨d + 1, steps⟩
    (123 :: separated (writeMembers (writtenFields x r.fields)) ++ [125] ++ rest) = _
  simp only [Record.read, List.cons_append, List.append_assoc, List.nil_append,
    atValue_cons (b := 123) (by decide), bind, Except.bind, Budget.enter, hobject, closing]
  rfl

theorem opens_record (r : Record ρ) (x : ρ) : Opens (r.write x) := ⟨123, _, rfl, by decide⟩

end PathPolicy.Json
