import PathPolicy.Json.Codable
import Mathlib.Tactic.IntervalCases

/-!
Strings in JSON texts. A written string is read back and passed over whatever follows it, and its
bytes are those of a text.
-/
namespace PathPolicy.Bytes

theorem ofText_eq_flatMap (s : String) : ofText s = s.toList.flatMap String.utf8EncodeChar := by
  rw [ofText, String.toUTF8, ← String.utf8Encode_toList, List.utf8Encode]
  simp

def IsText (bytes : Bytes) : Prop := ∃ s, ofText s = bytes

theorem isText_flatMap (cs : List Char) : IsText (cs.flatMap String.utf8EncodeChar) :=
  ⟨String.ofList cs, by rw [ofText_eq_flatMap, String.toList_ofList]⟩

theorem isText_nil : IsText [] := isText_flatMap []

theorem IsText.append {a b : Bytes} (ha : IsText a) (hb : IsText b) : IsText (a ++ b) := by
  obtain ⟨s, rfl⟩ := ha
  obtain ⟨t, rfl⟩ := hb
  rw [ofText_eq_flatMap, ofText_eq_flatMap, ← List.flatMap_append]
  exact isText_flatMap _

theorem utf8EncodeChar_ofNat {b : UInt8} (h : b < 128) :
    String.utf8EncodeChar (Char.ofNat b.toNat) = [b] := by
  have all : ∀ n < 128, String.utf8EncodeChar (Char.ofNat n) = [UInt8.ofNat n] := by decide +kernel
  rw [all b.toNat (UInt8.lt_iff_toNat_lt.mp h), UInt8.ofNat_toNat]

theorem isText_cons {b : UInt8} (h : b < 128) {bytes : Bytes} (hbytes : IsText bytes) :
    IsText (b :: bytes) := by
  have hb : IsText [b] := by
    rw [← utf8EncodeChar_ofNat h, ← List.flatMap_singleton String.utf8EncodeChar]
    exact isText_flatMap _
  exact hb.append hbytes

theorem isText_of_ascii {bytes : Bytes} (h : bytes.all (· < 128)) : IsText bytes := by
  induction bytes with
  | nil => exact isText_nil
  | cons b rest ih =>
    obtain ⟨hb, hrest⟩ := Bool.and_eq_true_iff.mp h
    exact isText_cons (of_decide_eq_true hb) (ih hrest)

theorem ascii_or_forall_le (c : Char) :
    (∃ b < 128, String.utf8EncodeChar c = [b]) ∨ ∀ b ∈ String.utf8EncodeChar c, 128 ≤ b := by
  rw [String.utf8EncodeChar]
  have hc : c.val.toNat < 1114112 := by
    have := c.valid
    simp only [UInt32.isValidChar, Nat.isValidChar] at this
    omega
  split
  · refine .inl ⟨_, ?_, rfl⟩
    rw [UInt8.lt_iff_toNat_lt, UInt8.toNat_ofNat']
    change _ < 128
    omega
  · right
    simp only [UInt8.le_iff_toNat_le]
    split
    · simp only [List.mem_cons, List.not_mem_nil, or_false, forall_eq_or_imp, forall_eq,
        UInt8.toNat_ofNat']
      change 128 ≤ _ ∧ 128 ≤ _
      omega
    · split
      · simp only [List.mem_cons, List.not_mem_nil, or_false, forall_eq_or_imp, forall_eq,
          UInt8.toNat_ofNat']
        change 128 ≤ _ ∧ 128 ≤ _ ∧ 128 ≤ _
        omega
      · simp only [List.mem_cons, List.not_mem_nil, or_false, forall_eq_or_imp, forall_eq,
          UInt8.toNat_ofNat']
        change 128 ≤ _ ∧ 128 ≤ _ ∧ 128 ≤ _ ∧ 128 ≤ _
        omega

end PathPolicy.Bytes

namespace PathPolicy.Json

/-! ### One byte -/

/-- A byte is written as a backslash and a tail, from which it is read back. -/
def Escaped (b : UInt8) : Prop :=
  ∃ tail, escape b = 92 :: tail ∧ tail.all (· < 128) ∧
    ∀ rest, readEscape (tail ++ rest) = .ok ([b], rest) ∧ skipEscape (tail ++ rest) = .ok rest

theorem escaped_of_control {b : UInt8} (h : b < 32) : Escaped b := by
  have hb : b.toNat < 32 := UInt8.lt_iff_toNat_lt.mp h
  rw [← UInt8.ofNat_toNat (x := b)]
  generalize b.toNat = n at hb
  interval_cases n <;> exact ⟨_, rfl, rfl, fun rest => ⟨rfl, rfl⟩⟩

theorem escaped_or_plain (b : UInt8) :
    b < 128 ∧ Escaped b ∨ b ≠ 34 ∧ b ≠ 92 ∧ ¬b < 32 ∧ escape b = [b] := by
  by_cases h34 : b = 34
  · subst h34
    exact .inl ⟨by decide, _, rfl, rfl, fun rest => ⟨rfl, rfl⟩⟩
  by_cases h92 : b = 92
  · subst h92
    exact .inl ⟨by decide, _, rfl, rfl, fun rest => ⟨rfl, rfl⟩⟩
  by_cases h32 : b < 32
  · exact .inl ⟨UInt8.lt_trans h32 (by decide), escaped_of_control h32⟩
  · refine .inr ⟨h34, h92, h32, ?_⟩
    have hne (c : UInt8) (hc : c < 32) : b ≠ c := by
      rintro rfl
      exact h32 hc
    simp [escape, h34, h92, h32, hne]

theorem readQuoted_escape (b : UInt8) (n : Nat) (done rest : Bytes) :
    readQuoted (n + 1) done (escape b ++ rest) = readQuoted n (b :: done) rest := by
  rcases escaped_or_plain b with ⟨-, tail, hescape, -, htail⟩ | ⟨h34, h92, h32, hescape⟩
  · simp [hescape, readQuoted, (htail rest).1]
  · simp [hescape, readQuoted, h34, h92, h32]

theorem skipQuoted_escape (b : UInt8) (n : Nat) (rest : Bytes) :
    skipQuoted (n + 1) (escape b ++ rest) = skipQuoted n rest := by
  rcases escaped_or_plain b with ⟨-, tail, hescape, -, htail⟩ | ⟨h34, h92, h32, hescape⟩
  · simp [hescape, skipQuoted, (htail rest).2]
  · simp [hescape, skipQuoted, h34, h92, h32]

theorem length_pos_escape (b : UInt8) : 1 ≤ (escape b).length := by
  rcases escaped_or_plain b with ⟨-, tail, hescape, -⟩ | ⟨-, -, -, hescape⟩ <;> simp [hescape]

/-! ### Strings -/

theorem length_le_flatMap_escape (bytes : Bytes) :
    bytes.length ≤ (bytes.flatMap escape).length := by
  induction bytes with
  | nil => exact Nat.le_refl 0
  | cons b bytes ih =>
    have hb := length_pos_escape b
    simp only [List.length_cons, List.flatMap_cons, List.length_append]
    omega

theorem readQuoted_flatMap_escape (bytes done rest : Bytes) {n : Nat} (h : bytes.length < n) :
    readQuoted n done (bytes.flatMap escape ++ 34 :: rest)
      = .ok (done.reverse ++ bytes, rest) := by
  induction bytes generalizing n done with
  | nil =>
    obtain ⟨n, rfl⟩ := Nat.exists_eq_succ_of_ne_zero (Nat.ne_of_gt h)
    simp [readQuoted]
  | cons b bytes ih =>
    obtain ⟨n, rfl⟩ := Nat.exists_eq_succ_of_ne_zero (Nat.ne_of_gt (Nat.zero_lt_of_lt h))
    rw [List.flatMap_cons, List.append_assoc, readQuoted_escape,
      ih (b :: done) (Nat.lt_of_succ_lt_succ h)]
    simp

theorem skipQuoted_flatMap_escape (bytes rest : Bytes) {n : Nat} (h : bytes.length < n) :
    skipQuoted n (bytes.flatMap escape ++ 34 :: rest) = .ok rest := by
  induction bytes generalizing n with
  | nil =>
    obtain ⟨n, rfl⟩ := Nat.exists_eq_succ_of_ne_zero (Nat.ne_of_gt h)
    simp [skipQuoted]
  | cons b bytes ih =>
    obtain ⟨n, rfl⟩ := Nat.exists_eq_succ_of_ne_zero (Nat.ne_of_gt (Nat.zero_lt_of_lt h))
    rw [List.flatMap_cons, List.append_assoc, skipQuoted_escape, ih (Nat.lt_of_succ_lt_succ h)]

def quotedTail (s : String) : Bytes := (Bytes.ofText s).flatMap escape ++ [34]

theorem writeText_eq (s : String) : writeText s = 34 :: quotedTail s := rfl

theorem length_ofText_lt (s : String) : (Bytes.ofText s).length < (quotedTail s).length := by
  have := length_le_flatMap_escape (Bytes.ofText s)
  simp only [quotedTail, List.length_append, List.length_singleton]
  omega

theorem readText_quotedTail (s : String) (rest : Bytes) {steps : Nat}
    (h : (quotedTail s).length ≤ steps) : readText steps (quotedTail s ++ rest) = .ok (s, rest) := by
  have hquoted := readQuoted_flatMap_escape (Bytes.ofText s) [] rest
    (Nat.lt_of_lt_of_le (length_ofText_lt s) h)
  simp only [readText, quotedTail, List.append_assoc, List.singleton_append, hquoted]
  simp [bind, Except.bind, Bytes.text?_ofText, pure, Except.pure]

theorem skipQuoted_quotedTail (s : String) (rest : Bytes) {steps : Nat}
    (h : (quotedTail s).length ≤ steps) : skipQuoted steps (quotedTail s ++ rest) = .ok rest := by
  have hquoted := skipQuoted_flatMap_escape (Bytes.ofText s) rest
    (Nat.lt_of_lt_of_le (length_ofText_lt s) h)
  simpa [quotedTail] using hquoted

theorem isText_flatMap_escape (c : Char) :
    Bytes.IsText ((String.utf8EncodeChar c).flatMap escape) := by
  rcases Bytes.ascii_or_forall_le c with ⟨b, hb, hc⟩ | hc
  · rw [hc, List.flatMap_cons, List.flatMap_nil, List.append_nil]
    rcases escaped_or_plain b with ⟨-, tail, hescape, htail, -⟩ | ⟨-, -, -, hescape⟩
    · rw [hescape]
      exact Bytes.isText_cons (by decide) (Bytes.isText_of_ascii htail)
    · rw [hescape]
      exact Bytes.isText_cons hb Bytes.isText_nil
  · have hplain : ∀ b ∈ String.utf8EncodeChar c, escape b = [b] := by
      intro b hb
      rcases escaped_or_plain b with ⟨hlt, -⟩ | ⟨-, -, -, hescape⟩
      · exact absurd hlt (UInt8.not_lt.mpr (hc b hb))
      · exact hescape
    rw [List.flatMap_def, List.map_congr_left hplain, ← List.flatMap_def, List.flatMap_singleton',
      ← List.flatMap_singleton String.utf8EncodeChar]
    exact Bytes.isText_flatMap [c]

theorem isText_quotedTail (s : String) : Bytes.IsText (quotedTail s) := by
  have general (cs : List Char) :
      Bytes.IsText ((cs.flatMap String.utf8EncodeChar).flatMap escape) := by
    induction cs with
    | nil => exact Bytes.isText_nil
    | cons c cs ih =>
      rw [List.flatMap_cons, List.flatMap_append]
      exact (isText_flatMap_escape c).append ih
  rw [quotedTail, Bytes.ofText_eq_flatMap]
  exact (general s.toList).append (Bytes.isText_of_ascii rfl)

end PathPolicy.Json
