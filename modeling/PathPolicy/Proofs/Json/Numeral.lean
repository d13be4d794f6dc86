import PathPolicy.Json.Codable
import Mathlib.Tactic.Linarith

/-!
Numbers in JSON texts. The digits of a number, written one after the other, are scanned again
wherever the text behind them cannot continue a number; whole numbers are read back exactly.
-/
namespace PathPolicy.Json

/-! ### Digits -/

def digits (n : Nat) : List Nat :=
  if n < 10 then [n] else digits (n / 10) ++ [n % 10]

theorem digits_of_lt {n : Nat} (h : n < 10) : digits n = [n] := by
  rw [digits, if_pos h]

theorem digits_of_le {n : Nat} (h : 10 ≤ n) : digits n = digits (n / 10) ++ [n % 10] := by
  rw [digits, if_neg (Nat.not_lt.mpr h)]

theorem lt_of_mem_digits {n d : Nat} (h : d ∈ digits n) : d < 10 := by
  induction n using digits.induct with
  | case1 n hn =>
    rw [digits_of_lt hn, List.mem_singleton] at h
    omega
  | case2 n hn ih =>
    rw [digits_of_le (Nat.le_of_not_lt hn), List.mem_append, List.mem_singleton] at h
    rcases h with h | rfl
    · exact ih h
    · exact Nat.mod_lt n (by decide)

theorem digits_eq_cons (n : Nat) :
    digits n = [0] ∧ n = 0 ∨ ∃ d ds, digits n = d :: ds ∧ d ≠ 0 := by
  induction n using digits.induct with
  | case1 n hn =>
    rw [digits_of_lt hn]
    by_cases h : n = 0
    · exact .inl ⟨by rw [h], h⟩
    · exact .inr ⟨n, [], rfl, h⟩
  | case2 n hn ih =>
    rw [digits_of_le (Nat.le_of_not_lt hn)]
    rcases ih with ⟨-, h⟩ | ⟨d, ds, h, hd⟩
    · omega
    · exact .inr ⟨d, ds ++ [n % 10], by rw [h]; rfl, hd⟩

/-- The number that digits say after those that said `n`. -/
def ofDigits (n : Nat) (ds : List Nat) : Nat := ds.foldl (fun n d => 10 * n + d) n

theorem ofDigits_append (n : Nat) (ds es : List Nat) :
    ofDigits n (ds ++ es) = ofDigits (ofDigits n ds) es := by
  simp [ofDigits]

theorem ofDigits_digits (n : Nat) : ofDigits 0 (digits n) = n := by
  induction n using digits.induct with
  | case1 n hn => simp [digits_of_lt hn, ofDigits]
  | case2 n hn ih =>
    rw [digits_of_le (Nat.le_of_not_lt hn), ofDigits_append, ih, ofDigits]
    exact Nat.div_add_mod n 10

theorem le_ofDigits (n : Nat) (ds : List Nat) : n ≤ ofDigits n ds := by
  induction ds generalizing n with
  | nil => exact Nat.le_refl n
  | cons d ds ih =>
    have := ih (10 * n + d)
    simp only [ofDigits, List.foldl_cons] at this ⊢
    omega

theorem absorb_of_lt {n : Nat} {ds : List Nat} (h : ofDigits n ds < UInt64.size) :
    absorb n ds = (ofDigits n ds, []) := by
  induction ds generalizing n with
  | nil => rfl
  | cons d ds ih =>
    have hd : 10 * n + d < UInt64.size := Nat.lt_of_le_of_lt (le_ofDigits (10 * n + d) ds) h
    rw [absorb, if_pos hd]
    exact ih h

/-! ### Written digits -/

def digitByte (d : Nat) : UInt8 := UInt8.ofNat (48 + d)

theorem isDigit_digitByte {d : Nat} (h : d < 10) :
    isDigit (digitByte d) ∧ (digitByte d).toNat - 48 = d := by
  have all : ∀ d < 10, isDigit (digitByte d) ∧ (digitByte d).toNat - 48 = d := by decide
  exact all d h

theorem digitByte_ne {d : Nat} (h : d < 10) (hne : d ≠ 0) : digitByte d ≠ 48 := by
  have all : ∀ d < 10, d ≠ 0 → digitByte d ≠ 48 := by decide
  exact all d h hne

theorem ofChars_ofNat (n : Nat) : ofChars (Decimal.ofNat n) = (digits n).map digitByte := by
  have digit : ∀ d < 10, UInt8.ofNat (Nat.digitChar d).toNat = digitByte d := by decide
  rw [ofChars, Decimal.ofNat]
  induction n using digits.induct with
  | case1 n hn => simp [digits_of_lt hn, Nat.toDigits_of_lt_base hn, digit n hn]
  | case2 n hn ih =>
    have hmod : n % 10 < 10 := Nat.mod_lt n (by decide)
    rw [digits_of_le (Nat.le_of_not_lt hn),
      Nat.toDigits_of_base_le (by decide) (Nat.le_of_not_lt hn), List.map_append, ih]
    simp [digit _ hmod]

def NoDigit (rest : Bytes) : Prop := ∀ b ∈ rest.head?, isDigit b = false

theorem takeDigits_of_noDigit {rest : Bytes} (h : NoDigit rest) : takeDigits rest = ([], rest) := by
  cases rest with
  | nil => rfl
  | cons b rest => simp [takeDigits, h b rfl]

theorem takeDigits_map {ds : List Nat} (hds : ∀ d ∈ ds, d < 10) {rest : Bytes}
    (hrest : NoDigit rest) : takeDigits (ds.map digitByte ++ rest) = (ds, rest) := by
  induction ds with
  | nil => exact takeDigits_of_noDigit hrest
  | cons d ds ih =>
    obtain ⟨hdigit, hvalue⟩ := isDigit_digitByte (hds d List.mem_cons_self)
    simp [takeDigits, hdigit, hvalue, ih fun e he => hds e (List.mem_cons_of_mem d he)]

/-! ### Scanning -/

/-- The text cannot continue a number: neither by a digit nor by a point nor by an exponent. -/
def Stops (rest : Bytes) : Prop :=
  ∀ b ∈ rest.head?, isDigit b = false ∧ b ≠ 46 ∧ b ≠ 101 ∧ b ≠ 69

theorem Stops.noDigit {rest : Bytes} (h : Stops rest) : NoDigit rest := fun b hb => (h b hb).1

namespace Numeral

def writeFraction (ds : List Nat) : Bytes :=
  match ds with
  | [] => []
  | ds => 46 :: ds.map digitByte

def writeExponent : Option (Bool × List Nat) → Bytes
  | none => []
  | some (negative, ds) => 101 :: (if negative then 45 else 43) :: ds.map digitByte

def write (n : Numeral) : Bytes :=
  n.whole.map digitByte ++ (writeFraction n.fraction ++ writeExponent n.exponent)

structure Proper (n : Numeral) : Prop where
  whole : n.whole = [0] ∨ ∃ d ds, n.whole = d :: ds ∧ d ≠ 0
  lt_of_mem_whole : ∀ d ∈ n.whole, d < 10
  lt_of_mem_fraction : ∀ d ∈ n.fraction, d < 10
  exponent : ∀ e ∈ n.exponent, e.2 ≠ [] ∧ ∀ d ∈ e.2, d < 10

end Numeral

theorem scanExponent_write (atEnd : Cause) (negative : Bool) {ds : List Nat} (hne : ds ≠ [])
    (hds : ∀ d ∈ ds, d < 10) {rest : Bytes} (hrest : NoDigit rest) :
    scanExponent atEnd ((if negative then 45 else 43) :: ds.map digitByte ++ rest)
      = .ok ((negative, ds), rest) := by
  have htake := takeDigits_map hds hrest
  match ds, hne with
  | d :: ds, _ =>
    obtain ⟨hdigit, -⟩ := isDigit_digitByte (hds d List.mem_cons_self)
    rw [List.map_cons, List.cons_append] at htake
    cases negative <;> simp [scanExponent, takePowerSign, hdigit, htake]

theorem scanFraction_write (atEnd : Cause) {ds : List Nat} (hne : ds ≠ []) (hds : ∀ d ∈ ds, d < 10)
    {rest : Bytes} (hrest : NoDigit rest) :
    scanFraction atEnd (ds.map digitByte ++ rest) = .ok (ds, rest) := by
  have htake := takeDigits_map hds hrest
  match ds, hne with
  | d :: ds, _ => rw [scanFraction, htake]

namespace Numeral

theorem noDigit_writeExponent (e : Option (Bool × List Nat)) {rest : Bytes} (h : NoDigit rest) :
    NoDigit (writeExponent e ++ rest) := by
  cases e with
  | none => exact h
  | some e =>
    rintro b ⟨⟩
    rfl

theorem noDigit_writeFraction (ds : List Nat) {rest : Bytes} (h : NoDigit rest) :
    NoDigit (writeFraction ds ++ rest) := by
  cases ds with
  | nil => exact h
  | cons d ds =>
    rintro b ⟨⟩
    rfl

end Numeral

theorem scanWhole_write (atEnd : Cause) {ds : List Nat} (hds : ∀ d ∈ ds, d < 10)
    (hproper : ds = [0] ∨ ∃ d tail, ds = d :: tail ∧ d ≠ 0) {rest : Bytes} (hrest : NoDigit rest) :
    scanWhole atEnd (ds.map digitByte ++ rest) = .ok (ds, rest) := by
  have htake := takeDigits_map hds hrest
  rcases hproper with rfl | ⟨d, tail, rfl, hd⟩
  · cases rest with
    | nil => rfl
    | cons b rest =>
      have hb : isDigit b = false := hrest b rfl
      change (if isDigit b then _ else _) = _
      rw [hb]
      rfl
  · have hlt := hds d List.mem_cons_self
    rw [List.map_cons, List.cons_append] at htake ⊢
    rw [scanWhole]
    · rw [if_pos (isDigit_digitByte hlt).1, htake]
    · exact fun _ _ h => absurd h (digitByte_ne hlt hd)

theorem scanPoint_write (atEnd : Cause) {ds : List Nat} (hds : ∀ d ∈ ds, d < 10) {rest : Bytes}
    (hrest : NoDigit rest) (hpoint : ∀ b ∈ rest.head?, b ≠ 46) :
    scanPoint atEnd (Numeral.writeFraction ds ++ rest) = .ok (ds, rest) := by
  cases ds with
  | nil =>
    cases rest with
    | nil => rfl
    | cons b rest =>
      change scanPoint atEnd (b :: rest) = _
      rw [scanPoint]
      exact fun _ h => hpoint b rfl (List.head_eq_of_cons_eq h)
  | cons d ds => exact scanFraction_write atEnd (List.cons_ne_nil d ds) hds hrest

theorem scanPower_write (atEnd : Cause) {exponent : Option (Bool × List Nat)}
    (hproper : ∀ e ∈ exponent, e.2 ≠ [] ∧ ∀ d ∈ e.2, d < 10) {rest : Bytes} (hrest : Stops rest) :
    scanPower atEnd (Numeral.writeExponent exponent ++ rest) = .ok (exponent, rest) := by
  cases exponent with
  | none =>
    cases rest with
    | nil => rfl
    | cons b rest =>
      obtain ⟨-, -, h101, h69⟩ := hrest b rfl
      simp [Numeral.writeExponent, scanPower, h101, h69]
  | some e =>
    obtain ⟨negative, ds⟩ := e
    obtain ⟨hne, hds⟩ := hproper (negative, ds) rfl
    have hscan := scanExponent_write atEnd negative hne hds hrest.noDigit
    rw [List.cons_append] at hscan
    simp [Numeral.writeExponent, scanPower, hscan, Except.map]

theorem scanNumeral_write (atEnd : Cause) {n : Numeral} (h : n.Proper) {rest : Bytes}
    (hrest : Stops rest) : scanNumeral atEnd (n.write ++ rest) = .ok (n, rest) := by
  obtain ⟨whole, fraction, exponent⟩ := n
  have hexponent := Numeral.noDigit_writeExponent exponent hrest.noDigit
  have hpoint : ∀ b ∈ (Numeral.writeExponent exponent ++ rest).head?, b ≠ 46 := by
    cases exponent with
    | none => exact fun b hb => (hrest b hb).2.1
    | some e =>
      rintro b ⟨⟩
      decide
  have hwhole := scanWhole_write atEnd h.lt_of_mem_whole h.whole
    (Numeral.noDigit_writeFraction fraction hexponent)
  simp only [scanNumeral, Numeral.write, List.append_assoc, hwhole, bind, Except.bind,
    scanPoint_write atEnd h.lt_of_mem_fraction hexponent hpoint,
    scanPower_write atEnd h.exponent hrest]
  rfl

theorem Numeral.write_eq_cons {n : Numeral} (h : n.Proper) :
    ∃ b rest, n.write = b :: rest ∧ isDigit b := by
  have hne : n.whole ≠ [] := by
    rcases h.whole with hw | ⟨d, ds, hw, -⟩ <;> simp [hw]
  obtain ⟨d, ds, hw⟩ := List.exists_cons_of_ne_nil hne
  have hlt : d < 10 := h.lt_of_mem_whole d (by simp [hw])
  exact ⟨digitByte d, _, by rw [write, hw]; rfl, (isDigit_digitByte hlt).1⟩

def withSign (negative : Bool) (text : Bytes) : Bytes := if negative then 45 :: text else text

theorem takeSign_withSign (negative : Bool) {n : Numeral} (h : n.Proper) (rest : Bytes) :
    takeSign (withSign negative n.write ++ rest) = (negative, n.write ++ rest) := by
  cases negative with
  | true => rfl
  | false =>
    obtain ⟨b, tail, hwrite, hb⟩ := Numeral.write_eq_cons h
    simp only [withSign, hwrite, Bool.false_eq_true, if_false, List.cons_append]
    rw [takeSign]
    rintro _ ⟨⟩
    cases hb

theorem readNumber_write {negative : Bool} {n : Numeral} (h : n.Proper) {x : Number}
    (hx : n.value? negative = some x) {rest : Bytes} (hrest : Stops rest) :
    readNumber (withSign negative n.write ++ rest) = .ok (x, rest) := by
  simp only [readNumber, takeSign_withSign negative h rest, scanNumeral_write _ h hrest, bind,
    Except.bind, hx]
  rfl

theorem skipNumber_write (negative : Bool) {n : Numeral} (h : n.Proper) {rest : Bytes}
    (hrest : Stops rest) : skipNumber (withSign negative n.write ++ rest) = .ok rest := by
  rw [skipNumber, takeSign_withSign negative h rest, scanNumeral_write _ h hrest]
  rfl

/-! ### Whole numbers -/

def Numeral.ofNat (n : Nat) : Numeral := ⟨digits n, [], none⟩

theorem Numeral.proper_ofNat (n : Nat) : (Numeral.ofNat n).Proper where
  whole := (digits_eq_cons n).imp And.left id
  lt_of_mem_whole := fun _ => lt_of_mem_digits
  lt_of_mem_fraction := by simp [ofNat]
  exponent := by simp [ofNat]

theorem writeNat_eq (n : Nat) : writeNat n = withSign false (Numeral.ofNat n).write := by
  simp [writeNat, ofChars_ofNat, Numeral.write, Numeral.ofNat, Numeral.writeFraction,
    Numeral.writeExponent, withSign]

theorem Numeral.value?_ofNat {n : Nat} (h : n < UInt64.size) :
    (Numeral.ofNat n).value? false = some (.natural (UInt64.ofNat n)) := by
  have habsorb := @absorb_of_lt 0 (digits n) (by rwa [ofDigits_digits])
  rw [ofDigits_digits] at habsorb
  simp [Numeral.value?, Numeral.ofNat, habsorb]

theorem writeInt_eq (n : Int) :
    writeInt n = withSign (decide (n < 0)) (Numeral.ofNat n.natAbs).write := by
  cases n with
  | ofNat n => exact writeNat_eq n
  | negSucc n =>
    rw [decide_eq_true (Int.negSucc_lt_zero n)]
    exact congrArg (List.cons 45) (writeNat_eq (n + 1))

theorem Numeral.value?_ofNat_negative {n : Nat} (hpos : 0 < n) (h : n ≤ 2 ^ 63) :
    (Numeral.ofNat n).value? true = some (.negative (Int64.ofInt (-n))) := by
  have habsorb := @absorb_of_lt 0 (digits n) (by
    rw [ofDigits_digits]
    exact Nat.lt_of_le_of_lt h (by decide))
  rw [ofDigits_digits] at habsorb
  have hlow : ¬(n = 0 ∨ -(n : Int) < Int64.minValue.toInt) := by
    change ¬(n = 0 ∨ -(n : Int) < -2 ^ 63)
    omega
  simp only [Numeral.value?, Numeral.ofNat, habsorb, if_neg hlow]
  rfl

end PathPolicy.Json
