import PathPolicy.Proofs.Json.RoundTrip

/-!
Values of any shape that are read back from their written form: words and strings are, and objects
whose members are and stand in order. Members in any other order are put in order.
-/
namespace PathPolicy.Json

/-- The value is read back, however texts inside strings are read. -/
def Value.ReadsBack (depth : Nat) (v : Value) : Prop :=
  ∀ embedded, Takes (fun budget => readValue embedded budget.steps budget.depth) depth v.write v

theorem Value.ReadsBack.roundTrips {depth : Nat} {v : Value} (h : v.ReadsBack depth) :
    RoundTrips depth v :=
  fun budget => h (readEmbedded budget.steps) budget

theorem readsBack_null (depth : Nat) : Value.null.ReadsBack depth := by
  intro embedded budget _ _ rest _
  change readValue embedded budget.steps budget.depth (110 :: 117 :: 108 :: 108 :: rest) = _
  rw [readValue, atValue_cons (by decide)]
  rfl

theorem readsBack_text (depth : Nat) (s : String) : (Value.text s).ReadsBack depth := by
  intro embedded budget _ hsteps rest _
  change (writeText s).length < budget.steps at hsteps
  change readValue embedded budget.steps budget.depth (writeText s ++ rest) = _
  rw [writeText_eq, List.length_cons] at hsteps
  have htext := readText_quotedTail s rest (Nat.le_of_lt (Nat.lt_of_succ_lt hsteps))
  rw [writeText_eq, List.cons_append, readValue, atValue_cons (by decide)]
  simp [htext, bind, Except.bind, isDigit, pure, Except.pure]

theorem writeFields_eq_map (members : List (String × Value)) :
    writeFields members = members.map fun m => (m.1, m.2.write) := by
  induction members with
  | nil => rfl
  | cons m members ih => rw [writeFields, ih, List.map_cons]

section Object
variable {item : Bytes → Except Failure (Value × Bytes)}

theorem consumes_insertMember {name : String} {v : Value} {members : List (String × Value)}
    (h : Consumes item v.write v) : Consumes (insertMember item members name) (58 :: v.write)
      (Members.insert name v members) := by
  intro rest hrest
  have hcolon : readColon (58 :: (v.write ++ rest)) = .ok (v.write ++ rest) := by
    simp [readColon, skipSpace_cons (b := 58) (by decide)]
  simp only [insertMember, List.cons_append, hcolon, h rest hrest, bind, Except.bind]
  rfl

theorem follows_insertMember {members : List (String × Value)}
    (h : ∀ m ∈ members, Consumes item m.2.write m.2) (done : List (String × Value)) :
    Follows (insertMember item) (writeFields members) done
      (members.foldl (fun members (k, x) => Members.insert k x members) done) := by
  induction members generalizing done with
  | nil => exact .nil done
  | cons m members ih =>
    exact .cons (consumes_insertMember (h m List.mem_cons_self))
      (ih (fun m hm => h m (List.mem_cons_of_mem _ hm)) _)

theorem closeObject_cons (rest : Bytes) : closeObject (125 :: rest) = .ok rest := by
  simp [closeObject, skipSpace_cons (b := 125) (by decide)]

theorem readTree_separated {embedded : Bytes → Except Cause Value} {budget : Budget}
    {members : List (String × Value)} (hfirst : ∀ m ∈ members.head?, m.1 ≠ embeddedName)
    (h : ∀ m ∈ members, Consumes item m.2.write m.2)
    (hsteps : (writeObject (writeFields members)).length < budget.steps) (rest : Bytes) :
    readTree embedded item budget
        (separated (writeMembers (writeFields members)) ++ 125 :: rest)
      = .ok (.object (Members.ofList members), rest) := by
  cases members with
  | nil =>
    have hnext : nextMember true (125 :: rest) = .ok (false, 125 :: rest) := by
      simp [nextMember, skipSpace_cons (b := 125) (by decide)]
    change readTree embedded item budget (125 :: rest) = _
    simp only [readTree, hnext, bind, Except.bind, closeObject_cons]
    rfl
  | cons m members =>
    obtain ⟨name, v⟩ := m
    have hsize : ∀ m ∈ writeFields ((name, v) :: members), (quotedTail m.1).length ≤ budget.steps :=
      fun m hm => Nat.le_of_lt (Nat.lt_of_le_of_lt (Nat.le_add_right _ _)
        (Nat.lt_trans (length_member_lt hm) hsteps))
    have hcount : (writeFields members).length < budget.steps :=
      Nat.lt_trans (Nat.lt_succ_self _)
        (Nat.lt_trans (length_members_lt (writeFields ((name, v) :: members))) hsteps)
    -- the first member is apart, since its name says what the object stands for
    have hfollows := @follows_insertMember item members
      (fun m hm => h m (List.mem_cons_of_mem _ hm)) [(name, v)]
    have hmembers := readMembers_flatMap hfollows
      (fun m hm => hsize m (List.mem_cons_of_mem _ hm)) hcount rest
    have hvalue := h (name, v) List.mem_cons_self _
      (stops_flatMap_comma (.inr rfl) (writeMembers (writeFields members)) rest)
    have hname := readText_quotedTail name (58 :: (v.write ++
      ((writeMembers (writeFields members)).flatMap (44 :: ·) ++ 125 :: rest)))
      (hsize (name, v.write) List.mem_cons_self)
    have hnext (more : Bytes) : nextMember true (34 :: more) = .ok (true, 34 :: more) := by
      simp [nextMember, skipSpace_cons (b := 34) (by decide)]
    have hcolon (more : Bytes) : readColon (58 :: more) = .ok more := by
      simp [readColon, skipSpace_cons (b := 58) (by decide)]
    change readTree embedded item budget
      (separated (writeMember name v.write :: writeMembers (writeFields members)) ++ 125 :: rest) = _
    simp only [separated_cons, writeMember, writeText_eq, List.cons_append, List.append_assoc]
    simp only [readTree, hnext, bind, Except.bind, if_true, List.tail_cons, hname, hcolon,
      if_neg (hfirst (name, v) rfl), hvalue, hmembers, closeObject_cons]
    rfl

end Object

theorem takes_object {depth : Nat} {members : List (String × Value)}
    (hfirst : ∀ m ∈ members.head?, m.1 ≠ embeddedName)
    (h : ∀ m ∈ members, m.2.ReadsBack depth) (embedded : Bytes → Except Cause Value) :
    Takes (fun budget => readValue embedded budget.steps budget.depth) (depth + 1)
      (writeObject (writeFields members)) (.object (Members.ofList members)) := by
  intro budget hdepth hsteps rest _
  obtain ⟨d, steps⟩ := budget
  obtain ⟨d, rfl⟩ := Nat.exists_eq_add_of_le' (Nat.lt_of_lt_of_le (Nat.succ_pos depth) hdepth)
  have hitems : ∀ m ∈ members, Consumes (readValue embedded steps d) m.2.write m.2 := by
    intro m hm
    have hmember : (m.1, m.2.write) ∈ writeFields members := by
      rw [writeFields_eq_map]
      exact List.mem_map.mpr ⟨m, hm, rfl⟩
    have hlt := Nat.lt_of_le_of_lt (Nat.le_add_left _ _)
      (Nat.lt_trans (length_member_lt hmember) hsteps)
    exact h m hm embedded ⟨d, steps⟩ (Nat.le_of_succ_le_succ hdepth) hlt
  have htree := @readTree_separated _ embedded ⟨d, steps⟩ _ hfirst hitems hsteps rest
  change readValue embedded steps (d + 1)
    (123 :: separated (writeMembers (writeFields members)) ++ [125] ++ rest) = _
  rw [List.cons_append, List.cons_append, List.append_assoc, List.singleton_append, readValue,
    atValue_cons (by decide)]
  simp [bind, Except.bind, isDigit, htree]

theorem readsBack_object {depth : Nat} {members : List (String × Value)}
    (hsorted : (members.map Prod.fst).Pairwise (· < ·))
    (hfirst : ∀ m ∈ members.head?, m.1 ≠ embeddedName)
    (h : ∀ m ∈ members, m.2.ReadsBack depth) : (Value.object members).ReadsBack (depth + 1) := by
  intro embedded
  have htakes := takes_object hfirst h embedded
  rw [Members.ofList_of_sorted hsorted] at htakes
  exact htakes

end PathPolicy.Json
