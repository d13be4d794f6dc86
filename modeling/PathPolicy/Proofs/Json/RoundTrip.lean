import Mathlib.Data.List.Forall2
import PathPolicy.Json.Codable
import PathPolicy.Proofs.Json.Numeral
import PathPolicy.Proofs.Json.Text

/-!
Values that are read back from their written form: strings, numbers, what may be absent, lists, and
the members of objects.
-/
namespace PathPolicy.Json

theorem bind_eq_ok {ε α β : Type} {x : Except ε α} {f : α → Except ε β} {b : β} :
    (x >>= f) = .ok b ↔ ∃ a, x = .ok a ∧ f a = .ok b := by
  cases x <;> simp [bind, Except.bind]

theorem map_eq_ok {ε α β : Type} {x : Except ε α} {f : α → β} {b : β} :
    x.map f = .ok b ↔ ∃ a, x = .ok a ∧ f a = b := by
  cases x <;> simp [Except.map]

variable {α : Type}

/-- The reader takes the text for `x`, whatever stands behind it that cannot continue a number. -/
def Consumes (item : Bytes → Except Failure (α × Bytes)) (text : Bytes) (x : α) : Prop :=
  ∀ rest, Stops rest → item (text ++ rest) = .ok (x, rest)

/-- The reader takes the text for `x` wherever `depth` further levels are allowed. -/
def Takes (read : Budget → Bytes → Except Failure (α × Bytes)) (depth : Nat) (text : Bytes)
    (x : α) : Prop :=
  ∀ budget : Budget, depth ≤ budget.depth → text.length < budget.steps →
    Consumes (read budget) text x

/-- The value is read back from its written form. -/
abbrev RoundTrips [Codable α] (depth : Nat) (x : α) : Prop :=
  Takes Codable.read depth (Codable.write x) x

def Opens (text : Bytes) : Prop :=
  ∃ b tail, text = b :: tail ∧ isSpace b = false ∧ b ≠ 93 ∧ b ≠ 110

theorem stops_nil : Stops [] := by
  rintro b ⟨⟩

theorem stops_cons {b : UInt8} (h : isDigit b = false ∧ b ≠ 46 ∧ b ≠ 101 ∧ b ≠ 69) (rest : Bytes) :
    Stops (b :: rest) := by
  rintro _ ⟨⟩
  exact h

theorem Consumes.map {β : Type} {item : Bytes → Except Failure (α × Bytes)} {text : Bytes} {x : α}
    (h : Consumes item text x) (f : α → β) :
    Consumes (fun text => (item text).map fun (x, rest) => (f x, rest)) text (f x) := by
  intro rest hrest
  simp only [h rest hrest, Except.map]

theorem Takes.mono {read : Budget → Bytes → Except Failure (α × Bytes)} {depth deeper : Nat}
    {text : Bytes} {x : α} (h : Takes read depth text x) (hle : depth ≤ deeper) :
    Takes read deeper text x :=
  fun budget hdepth => h budget (Nat.le_trans hle hdepth)

theorem readWhole_eq_ok {read : Budget → Bytes → Except Failure (α × Bytes)}
    {text : Bytes} {x : α} :
    readWhole read text = .ok x ↔
      ∃ rest, read (.ofText text) text = .ok (x, rest) ∧ skipSpace rest = [] := by
  unfold readWhole
  constructor
  · intro h
    split at h
    · cases h
    · rename_i rest hread
      split at h
      · cases h
        exact ⟨rest, hread, ‹_›⟩
      · cases h
  · rintro ⟨rest, hread, hend⟩
    simp [hread, hend]

theorem decode_of_takes [Codable α] {depth : Nat} {text : Bytes} {x : α}
    (h : Takes Codable.read depth text x) (hdepth : depth ≤ 127) : decode text = .ok x := by
  have hread := h (.ofText text) hdepth (Nat.lt_succ_self _) [] stops_nil
  rw [List.append_nil] at hread
  exact readWhole_eq_ok.mpr ⟨[], hread, rfl⟩

theorem decode_encode [Codable α] {depth : Nat} {x : α} (h : RoundTrips depth x)
    (hdepth : depth ≤ 127) : decode (encode x) = .ok x :=
  decode_of_takes h hdepth

@[simp] theorem skipSpace_cons {b : UInt8} (h : isSpace b = false) (rest : Bytes) :
    skipSpace (b :: rest) = b :: rest := by
  simp [skipSpace, h]

theorem atValue_cons {b : UInt8} (h : isSpace b = false) (rest : Bytes) :
    atValue (b :: rest) = .ok (b, rest) := by
  simp [atValue, h]

theorem isSpace_of_isDigit {b : UInt8} (h : isDigit b) : isSpace b = false := by
  simp only [isDigit, Bool.and_eq_true, decide_eq_true_eq, UInt8.le_iff_toNat_le] at h
  have hne (c : UInt8) (hc : c.toNat < 48) : b ≠ c := by
    rintro rfl
    have : UInt8.toNat 48 = 48 := rfl
    omega
  simp [isSpace, hne]

theorem ne_of_isDigit {b c : UInt8} (h : isDigit b) (hc : isDigit c = false) : b ≠ c := by
  rintro rfl
  rw [h] at hc
  cases hc

/-! ### Strings and numbers -/

theorem opens_string (s : String) : Opens (Codable.write s) :=
  ⟨34, quotedTail s, rfl, by decide⟩

theorem roundTrips_string (s : String) : RoundTrips 0 s := by
  intro budget _ hsteps rest _
  change (writeText s).length < budget.steps at hsteps
  change Codable.read budget (writeText s ++ rest) = _
  rw [writeText_eq, List.length_cons] at hsteps
  simp only [writeText_eq, List.cons_append, Codable.read]
  rw [atValue_cons (by decide)]
  exact readText_quotedTail s rest (Nat.le_of_lt (Nat.lt_of_succ_lt hsteps))

theorem opens_numeral {n : Numeral} (h : n.Proper) (negative : Bool) :
    Opens (withSign negative n.write) := by
  cases negative with
  | true => exact ⟨45, n.write, rfl, by decide⟩
  | false =>
    obtain ⟨b, tail, hwrite, hb⟩ := Numeral.write_eq_cons h
    exact ⟨b, tail, hwrite, isSpace_of_isDigit hb, ne_of_isDigit hb (by decide),
      ne_of_isDigit hb (by decide)⟩

theorem takes_numeral {t : Numeric α} {negative : Bool} {n : Numeral} (h : n.Proper) {x : Number}
    (hx : n.value? negative = some x) {y : α} (hy : t.take x = .ok y) :
    Takes t.read 0 (withSign negative n.write) y := by
  intro budget _ _ rest hrest
  have hread := readNumber_write h hx hrest
  obtain ⟨b, tail, htext, hspace, -⟩ := opens_numeral h negative
  have hb : (b == 45 || isDigit b) = true := by
    cases negative with
    | true =>
      cases htext
      rfl
    | false =>
      obtain ⟨c, more, hwrite, hc⟩ := Numeral.write_eq_cons h
      cases hwrite.symm.trans htext
      simp [hc]
  rw [htext, List.cons_append] at hread ⊢
  rw [beq_eq_decide] at hb
  simp only [Numeric.read, atValue_cons hspace, bind, Except.bind, hb, if_true, hread, hy]
  rfl

theorem opens_nat (n : Nat) : Opens (writeNat n) := by
  rw [writeNat_eq]
  exact opens_numeral (Numeral.proper_ofNat n) false

theorem takes_nat {t : Numeric α} {n : Nat} (h : n < UInt64.size) {x : α}
    (hx : t.take (.natural (UInt64.ofNat n)) = .ok x) : Takes t.read 0 (writeNat n) x := by
  rw [writeNat_eq]
  exact takes_numeral (Numeral.proper_ofNat n) (Numeral.value?_ofNat h) hx

theorem take_natural {expected : String} {size : Nat} {n : UInt64} {make : Int → α} {x : α}
    (hn : n.toNat < size) (hx : make n.toNat = x) :
    (wholeBetween expected 0 (size - 1) make).take (.natural n) = .ok x := by
  have hrange : (0 : Int) ≤ n.toNat ∧ (n.toNat : Int) ≤ size - 1 := by omega
  simp only [wholeBetween, wholeBetween.within, if_pos hrange, hx]

theorem takes_unsigned {expected : String} {size n : Nat} (hsize : size ≤ UInt64.size)
    (hn : n < size) {make : Int → α} {x : α} (hx : make n = x) :
    Takes (wholeBetween expected 0 (size - 1) make).read 0 (writeNat n) x := by
  have hlt : n < UInt64.size := Nat.lt_of_lt_of_le hn hsize
  have hcast : (UInt64.ofNat n).toNat = n := UInt64.toNat_ofNat_of_lt hlt
  exact takes_nat hlt (take_natural (hcast.symm ▸ hn) (hcast.symm ▸ hx))

theorem roundTrips_uint8 (n : UInt8) : RoundTrips 0 n :=
  takes_unsigned (by decide) n.toNat_lt UInt8.ofNat_toNat

theorem roundTrips_uint16 (n : UInt16) : RoundTrips 0 n :=
  takes_unsigned (by decide) n.toNat_lt UInt16.ofNat_toNat

theorem roundTrips_uint32 (n : UInt32) : RoundTrips 0 n :=
  takes_unsigned (by decide) n.toNat_lt UInt32.ofNat_toNat

theorem roundTrips_uint64 (n : UInt64) : RoundTrips 0 n :=
  takes_unsigned (by decide) n.toNat_lt UInt64.ofNat_toNat

theorem opens_int (n : Int) : Opens (writeInt n) := by
  rw [writeInt_eq]
  exact opens_numeral (Numeral.proper_ofNat _) _

theorem roundTrips_int64 (n : Int64) : RoundTrips 0 n := by
  have hmin : -2 ^ 63 ≤ n.toInt := n.le_toInt
  have hmax : n.toInt ≤ 2 ^ 63 - 1 := n.toInt_le
  have hwithin : wholeBetween.within "i64" Int64.minValue.toInt Int64.maxValue.toInt Int64.ofInt
      n.toInt = .ok n := by
    rw [wholeBetween.within, if_pos ⟨hmin, hmax⟩, Int64.ofInt_toInt]
  change Takes (wholeBetween "i64" Int64.minValue.toInt Int64.maxValue.toInt Int64.ofInt).read 0
    (writeInt n.toInt) n
  rw [writeInt_eq]
  by_cases h : n.toInt < 0
  · have hnumber := @Numeral.value?_ofNat_negative n.toInt.natAbs (by omega) (by omega)
    rw [show -(n.toInt.natAbs : Int) = n.toInt by omega, Int64.ofInt_toInt] at hnumber
    rw [decide_eq_true h]
    exact takes_numeral (Numeral.proper_ofNat _) hnumber hwithin
  · have hlt : n.toInt.natAbs < UInt64.size := by
      change n.toInt.natAbs < 2 ^ 64
      omega
    have hcast : (UInt64.ofNat n.toInt.natAbs).toNat = n.toInt.natAbs :=
      UInt64.toNat_ofNat_of_lt hlt
    have hwhole : ((UInt64.ofNat n.toInt.natAbs).toNat : Int) = n.toInt := by omega
    rw [decide_eq_false h]
    refine takes_numeral (Numeral.proper_ofNat _) (Numeral.value?_ofNat hlt) ?_
    simpa only [wholeBetween, hwhole] using hwithin

/-! ### Words and names -/

theorem opens_boolean (b : Bool) : Opens (Codable.write b) := by
  cases b <;> exact ⟨_, _, rfl, by decide⟩

theorem roundTrips_boolean (b : Bool) : RoundTrips 0 b := by
  intro budget _ _ rest _
  cases b <;> rfl

theorem takes_variant {α : Type} (variants : List (String × α)) {name : String} {x : α}
    (h : Members.find? name variants = some x) :
    Takes (readVariant variants) 0 (writeText name) x := by
  intro budget _ hsteps rest _
  rw [writeText_eq, List.length_cons] at hsteps
  have hread := readText_quotedTail name rest (Nat.le_of_lt (Nat.lt_of_succ_lt hsteps))
  simp only [writeText_eq, List.cons_append, readVariant]
  rw [atValue_cons (by decide)]
  simp only [bind, Except.bind, if_true, readVariant.named, hread, h]
  rfl

/-! ### Absence -/

theorem roundTrips_none [Codable α] (depth : Nat) : RoundTrips depth (none : Option α) := by
  intro budget _ _ rest _
  rfl

theorem roundTrips_some [Codable α] {depth : Nat} {x : α} (h : RoundTrips depth x)
    (hopens : Opens (Codable.write x)) : RoundTrips depth (some x) := by
  intro budget hdepth hsteps rest hrest
  change (Codable.write x).length < budget.steps at hsteps
  have hread := h budget hdepth hsteps rest hrest
  obtain ⟨b, tail, htext, hspace, -, hnull⟩ := hopens
  change Codable.read budget (Codable.write x ++ rest) = _
  rw [htext, List.cons_append] at hread ⊢
  simp only [Codable.read, skipSpace_cons hspace]
  split
  · rename_i heq
    exact absurd (List.head_eq_of_cons_eq heq) hnull
  · rw [hread]
    rfl

theorem roundTrips_option [Codable α] {depth : Nat} {o : Option α}
    (h : ∀ x ∈ o, RoundTrips depth x) (hopens : ∀ x : α, Opens (Codable.write x)) :
    RoundTrips depth o := by
  cases o with
  | none => exact roundTrips_none depth
  | some x => exact roundTrips_some (h x rfl) (hopens x)

/-! ### Lists -/

theorem separated_cons (part : Bytes) (parts : List Bytes) :
    separated (part :: parts) = part ++ parts.flatMap (44 :: ·) := by
  induction parts generalizing part with
  | nil => exact (List.append_nil part).symm
  | cons next parts ih =>
    change part ++ 44 :: separated (next :: parts) = _
    rw [ih, List.flatMap_cons, List.cons_append]

theorem length_part_le {part : Bytes} {parts : List Bytes} (h : part ∈ parts) :
    part.length ≤ (separated parts).length := by
  cases parts with
  | nil => cases h
  | cons first parts =>
    rw [separated_cons, List.length_append]
    rcases List.mem_cons.mp h with rfl | h
    · exact Nat.le_add_right _ _
    · have hsub := (List.sublist_flatten_of_mem (List.mem_map_of_mem h (f := (44 :: ·)))).length_le
      rw [← List.flatMap_def, List.length_cons] at hsub
      omega

theorem length_parts_le (parts : List Bytes) :
    parts.length ≤ (separated parts).length + 1 := by
  have tail (parts : List Bytes) : parts.length ≤ (parts.flatMap (44 :: ·)).length := by
    induction parts with
    | nil => exact Nat.le_refl 0
    | cons part parts ih =>
      simp only [List.flatMap_cons, List.length_append, List.length_cons]
      omega
  cases parts with
  | nil => exact Nat.zero_le _
  | cons part parts =>
    have := tail parts
    rw [separated_cons, List.length_append, List.length_cons]
    omega

theorem stops_flatMap_comma {close : UInt8} (hclose : close = 93 ∨ close = 125)
    (parts : List Bytes) (rest : Bytes) : Stops (parts.flatMap (44 :: ·) ++ close :: rest) := by
  cases parts with
  | nil => rcases hclose with rfl | rfl <;> exact stops_cons (by decide) rest
  | cons part parts => exact stops_cons (by decide) _

abbrev ConsumesAll (item : Bytes → Except Failure (α × Bytes)) : List Bytes → List α → Prop :=
  List.Forall₂ fun text x => Opens text ∧ Consumes item text x

theorem readElements_flatMap {item : Bytes → Except Failure (α × Bytes)} {texts : List Bytes}
    {xs : List α} (h : ConsumesAll item texts xs) {n : Nat} (hn : texts.length < n) (rest : Bytes) :
    readElements item n false (texts.flatMap (44 :: ·) ++ 93 :: rest) = .ok (xs, 93 :: rest) := by
  induction h generalizing n with
  | nil =>
    obtain ⟨n, rfl⟩ := Nat.exists_eq_succ_of_ne_zero (Nat.ne_of_gt hn)
    rfl
  | @cons text x texts xs hx _ ih =>
    obtain ⟨n, rfl⟩ := Nat.exists_eq_succ_of_ne_zero (Nat.ne_of_gt (Nat.zero_lt_of_lt hn))
    obtain ⟨⟨b, tail, rfl, hspace, hclose, -⟩, hconsumes⟩ := hx
    have hitem := hconsumes _ (stops_flatMap_comma (.inl rfl) texts rest)
    have hnext : nextElement false (44 :: b :: tail ++ (texts.flatMap (44 :: ·) ++ 93 :: rest))
        = .ok (true, b :: tail ++ (texts.flatMap (44 :: ·) ++ 93 :: rest)) := by
      simp [nextElement, skipSpace_cons (b := 44) (by decide), skipSpace_cons hspace, hclose]
    simp only [List.flatMap_cons, List.append_assoc]
    simp only [readElements, hnext, bind, Except.bind, if_true, hitem, ih (Nat.lt_of_succ_lt_succ hn)]
    rfl

theorem readElements_separated {item : Bytes → Except Failure (α × Bytes)} {texts : List Bytes}
    {xs : List α} (h : ConsumesAll item texts xs) {n : Nat} (hn : texts.length < n) (rest : Bytes) :
    readElements item n true (separated texts ++ 93 :: rest) = .ok (xs, 93 :: rest) := by
  obtain ⟨n, rfl⟩ := Nat.exists_eq_succ_of_ne_zero (Nat.ne_of_gt (Nat.zero_lt_of_lt hn))
  cases h with
  | nil => rfl
  | @cons text x texts xs hx hxs =>
    obtain ⟨⟨b, tail, rfl, hspace, hclose, -⟩, hconsumes⟩ := hx
    have hitem := hconsumes _ (stops_flatMap_comma (.inl rfl) texts rest)
    have hnext : nextElement true (b :: tail ++ (texts.flatMap (44 :: ·) ++ 93 :: rest))
        = .ok (true, b :: tail ++ (texts.flatMap (44 :: ·) ++ 93 :: rest)) := by
      simp [nextElement, skipSpace_cons hspace, hclose]
    rw [separated_cons, List.append_assoc]
    simp only [readElements, hnext, bind, Except.bind, if_true, hitem,
      readElements_flatMap hxs (Nat.lt_of_succ_lt_succ hn)]
    rfl

theorem length_writeList (items : List Bytes) :
    (writeList items).length = (separated items).length + 2 := by
  simp [writeList]

theorem opens_list [Codable α] (xs : List α) : Opens (Codable.write xs) :=
  ⟨91, _, rfl, by decide⟩

theorem roundTrips_list [Codable α] {depth : Nat} {xs : List α}
    (h : ∀ x ∈ xs, Opens (Codable.write x) ∧ RoundTrips depth x) : RoundTrips (depth + 1) xs := by
  intro budget hdepth hsteps rest _
  obtain ⟨d, steps⟩ := budget
  obtain ⟨d, rfl⟩ := Nat.exists_eq_add_of_le' (Nat.lt_of_lt_of_le (Nat.succ_pos depth) hdepth)
  change (writeList (xs.map Codable.write)).length < steps at hsteps
  rw [length_writeList] at hsteps
  have hitems : ConsumesAll (Codable.read ⟨d, steps⟩) (xs.map Codable.write) xs := by
    refine List.forall₂_map_left_iff.mpr (List.forall₂_same.mpr fun x hx => ?_)
    have hle := length_part_le (List.mem_map_of_mem (f := Codable.write) hx)
    have hlt : (Codable.write x).length < steps := by omega
    exact ⟨(h x hx).1, (h x hx).2 ⟨d, steps⟩ (Nat.le_of_succ_le_succ hdepth) hlt⟩
  have hcount := length_parts_le (xs.map Codable.write)
  have helements := readElements_separated hitems (n := steps) (by omega) rest
  change readList "a sequence" Codable.read ⟨d + 1, steps⟩
    (91 :: separated (xs.map Codable.write) ++ [93] ++ rest) = _
  simp only [readList, List.cons_append, List.append_assoc, List.nil_append,
    atValue_cons (b := 91) (by decide), bind, Except.bind, if_true, Budget.enter, helements, closing]
  rfl

/-! ### Objects -/

section Members
variable {σ : Type} {step : σ → String → Bytes → Except Failure (σ × Bytes)}

/-- The step takes the members one after the other from the first state to the second. -/
inductive Follows (step : σ → String → Bytes → Except Failure (σ × Bytes)) :
    List (String × Bytes) → σ → σ → Prop
  | nil (s : σ) : Follows step [] s s
  | cons {name : String} {value : Bytes} {members : List (String × Bytes)} {s t u : σ}
    (h : Consumes (step s name) (58 :: value) t) (hrest : Follows step members t u) :
    Follows step ((name, value) :: members) s u

def writeMembers (members : List (String × Bytes)) : List Bytes :=
  members.map fun (name, value) => writeMember name value

theorem readMembers_end {steps n : Nat} {first : Bool} {s : σ} {text mid : Bytes}
    (hnext : nextMember first text = .ok (false, mid)) :
    readMembers step steps (n + 1) first s text = .ok (s, mid) := by
  simp only [readMembers, hnext, bind, Except.bind]
  rfl

theorem readMembers_next {steps n : Nat} {first : Bool} {s t : σ} {name : String}
    {text next colon rest : Bytes} (hnext : nextMember first text = .ok (true, next))
    (hname : readText steps next.tail = .ok (name, colon))
    (hstep : step s name colon = .ok (t, rest)) :
    readMembers step steps (n + 1) first s text = readMembers step steps n false t rest := by
  simp only [readMembers, hnext, bind, Except.bind, if_true, hname, hstep]

theorem readMembers_member {steps n : Nat} {first : Bool} {name : String} {value : Bytes} {s t : σ}
    {text rest : Bytes} (hname : (quotedTail name).length ≤ steps)
    (h : Consumes (step s name) (58 :: value) t) (hrest : Stops rest)
    (hnext : nextMember first text = .ok (true, writeMember name value ++ rest)) :
    readMembers step steps (n + 1) first s text = readMembers step steps n false t rest := by
  refine readMembers_next hnext ?_ (h rest hrest)
  simpa [writeMember, writeText_eq] using readText_quotedTail name (58 :: value ++ rest) hname

theorem readMembers_flatMap {steps : Nat} {members : List (String × Bytes)} {s t : σ}
    (h : Follows step members s t) (hnames : ∀ m ∈ members, (quotedTail m.1).length ≤ steps)
    {n : Nat} (hn : members.length < n) (rest : Bytes) :
    readMembers step steps n false s ((writeMembers members).flatMap (44 :: ·) ++ 125 :: rest)
      = .ok (t, 125 :: rest) := by
  induction h generalizing n with
  | nil =>
    obtain ⟨n, rfl⟩ := Nat.exists_eq_succ_of_ne_zero (Nat.ne_of_gt hn)
    rfl
  | @cons name value members s t u hstep _ ih =>
    obtain ⟨n, rfl⟩ := Nat.exists_eq_succ_of_ne_zero (Nat.ne_of_gt (Nat.zero_lt_of_lt hn))
    have hnext (more : Bytes) : nextMember false (44 :: (writeMember name value ++ more))
        = .ok (true, writeMember name value ++ more) := by
      simp [nextMember, skipSpace_cons (b := 44) (by decide),
        skipSpace_cons (b := 34) (by decide), writeMember, writeText_eq]
    have hmember := readMembers_member (n := n) (hnames _ List.mem_cons_self) hstep
      (stops_flatMap_comma (.inr rfl) (writeMembers members) rest) (hnext _)
    have htail := ih (fun m hm => hnames m (List.mem_cons_of_mem _ hm)) (Nat.lt_of_succ_lt_succ hn)
    simpa [writeMembers] using hmember.trans htail

theorem readMembers_separated {steps : Nat} {members : List (String × Bytes)} {s t : σ}
    (h : Follows step members s t) (hnames : ∀ m ∈ members, (quotedTail m.1).length ≤ steps)
    {n : Nat} (hn : members.length < n) (rest : Bytes) :
    readMembers step steps n true s (separated (writeMembers members) ++ 125 :: rest)
      = .ok (t, 125 :: rest) := by
  obtain ⟨n, rfl⟩ := Nat.exists_eq_succ_of_ne_zero (Nat.ne_of_gt (Nat.zero_lt_of_lt hn))
  cases h with
  | nil => rfl
  | @cons name value members s t u hstep hmembers =>
    have hnext (more : Bytes) : nextMember true (writeMember name value ++ more)
        = .ok (true, writeMember name value ++ more) := by
      simp [nextMember, skipSpace_cons (b := 34) (by decide), writeMember, writeText_eq]
    have hmember := readMembers_member (n := n) (hnames _ List.mem_cons_self) hstep
      (stops_flatMap_comma (.inr rfl) (writeMembers members) rest) (hnext _)
    have htail := readMembers_flatMap hmembers (fun m hm => hnames m (List.mem_cons_of_mem _ hm))
      (Nat.lt_of_succ_lt_succ hn) rest
    change readMembers step steps (n + 1) true s
      (separated (writeMember name value :: writeMembers members) ++ 125 :: rest) = _
    rw [separated_cons, List.append_assoc, hmember, htail]

end Members

theorem length_writeObject (members : List (String × Bytes)) :
    (writeObject members).length = (separated (writeMembers members)).length + 2 := by
  simp [writeObject, writeMembers]

theorem length_member_lt {name : String} {value : Bytes} {members : List (String × Bytes)}
    (h : (name, value) ∈ members) :
    (quotedTail name).length + value.length < (writeObject members).length := by
  have hle : (writeMember name value).length ≤ (separated (writeMembers members)).length :=
    length_part_le (List.mem_map.mpr ⟨(name, value), h, rfl⟩)
  rw [writeMember, writeText_eq, List.length_append, List.length_cons, List.length_cons] at hle
  rw [length_writeObject]
  omega

theorem length_members_lt (members : List (String × Bytes)) :
    members.length < (writeObject members).length := by
  have := length_parts_le (writeMembers members)
  simp only [writeMembers, List.length_map] at this
  simp only [length_writeObject, writeMembers]
  omega

end PathPolicy.Json
