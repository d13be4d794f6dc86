import PathPolicy.Proofs.Fraction
import PathPolicy.Script.Value

/-!
The whole numbers that script values are. A floating-point number is viewed as a whole number only
if it is one and lies in the range, so that nothing is rounded and nothing is cut off at the ends.
-/
namespace PathPolicy

namespace Double
open Float.Model
open UnpackedFloat (Sign)

/-! ### What bits denote -/

/-- The number that a pattern of bits denotes: a sign, 11 bits of exponent and 52 bits of fraction.
The last exponent denotes no number; with the first one the fraction has no leading one. -/
def denoted? (bits : UInt64) : Option ℚ :=
  let sign : Int := if bits.toNat / 2 ^ 63 = 0 then 1 else -1
  let exponent : Nat := bits.toNat / 2 ^ 52 % 2 ^ 11
  let fraction : Nat := bits.toNat % 2 ^ 52
  if exponent = 2 ^ 11 - 1 then none
  else if exponent = 0 then some (sign * fraction * 2 ^ (-1074 : Int))
  else some (sign * (2 ^ 52 + fraction) * 2 ^ (exponent - 1075 : Int))

section Fields
variable (b : BitVec 64)

theorem toNat_unpackExponent :
    (@UnpackedFloat.unpackExponent .binary64 b).toNat = b.toNat / 2 ^ 52 % 2 ^ 11 := by
  change b.toNat >>> 52 % 2 ^ 11 = _
  rw [Nat.shiftRight_eq_div_pow]

theorem toNat_unpackMantissa :
    (@UnpackedFloat.unpackMantissa .binary64 b).toNat = b.toNat % 2 ^ 52 := rfl

theorem apply_unpackSign (n : Int) :
    (Sign.ofBitVec (@UnpackedFloat.unpackSign .binary64 b)).apply n =
      (if b.toNat / 2 ^ 63 = 0 then 1 else -1) * n := by
  have hbit : (@UnpackedFloat.unpackSign .binary64 b).toNat = b.toNat / 2 ^ 63 := by
    change b.toNat >>> 63 % 2 ^ 1 = _
    rw [Nat.shiftRight_eq_div_pow]
    have := b.isLt
    omega
  by_cases h : b.toNat / 2 ^ 63 = 0
  · have hzero : @UnpackedFloat.unpackSign .binary64 b = 0#1 := BitVec.eq_of_toNat_eq (hbit.trans h)
    rw [hzero, if_pos h, one_mul]
    rfl
  · have hone : @UnpackedFloat.unpackSign .binary64 b ≠ 0#1 := fun hz =>
      h (hbit.symm.trans (congrArg BitVec.toNat hz))
    rw [Sign.ofBitVec, if_neg hone, if_neg h, neg_one_mul]
    rfl

theorem exactOf_unpack (q : ℚ) :
    exactOf (UnpackedFloat.unpack .binary64 b) = Extended.ofRat q ↔ denoted? ⟨b⟩ = some q := by
  have hexponent := toNat_unpackExponent b
  have hfraction := toNat_unpackMantissa b
  have hsign := apply_unpackSign b
  have hbits : (UInt64.ofBitVec b).toNat = b.toNat := rfl
  simp only [denoted?, UnpackedFloat.unpack, hbits, ← hexponent, ← hfraction]
  split
  next hspecial =>
    have hlast : (@UnpackedFloat.unpackExponent .binary64 b).toNat = 2 ^ 11 - 1 :=
      congrArg BitVec.toNat hspecial
    rw [if_pos hlast]
    split
    · cases Sign.ofBitVec (@UnpackedFloat.unpackSign .binary64 b) with
      | negative => simp [exactOf, (Extended.bot_lt_ofRat q).ne]
      | positive => simp [exactOf, (Extended.ofRat_lt_top q).ne']
    · simp [exactOf, (Extended.ofRat_lt_top q).ne']
  next hspecial =>
    have hlast : (@UnpackedFloat.unpackExponent .binary64 b).toNat ≠ 2 ^ 11 - 1 :=
      fun h => hspecial (BitVec.eq_of_toNat_eq h)
    rw [if_neg hlast]
    split
    next hleast =>
      have hzero : (@UnpackedFloat.unpackExponent .binary64 b).toNat = 0 :=
        congrArg BitVec.toNat hleast
      rw [if_pos hzero, Option.some.injEq]
      split
      next hnone =>
        have hnone' : (@UnpackedFloat.unpackMantissa .binary64 b).toNat = 0 :=
          congrArg BitVec.toNat hnone
        rw [hnone', exactOf, Extended.ofRat_inj, Nat.cast_zero, mul_zero, zero_mul]
      next =>
        have hplace : ((0 : Nat) : Int) - (Format.binary64.exponentBias + (52 : Nat)) + 1 = -1074 :=
          rfl
        rw [exactOf, hsign, hzero, hplace, Extended.ofRat_inj, Int.cast_mul, Int.cast_natCast]
    next hnormal =>
      have hne : (@UnpackedFloat.unpackExponent .binary64 b).toNat ≠ 0 :=
        fun h => hnormal (BitVec.eq_of_toNat_eq h)
      have hplace : (Format.binary64.exponentBias + (52 : Nat) : Int) = 1075 := rfl
      rw [if_neg hne, exactOf, hsign, toNat_one_append, hplace, Extended.ofRat_inj,
        Option.some.injEq]
      push_cast
      rfl

end Fields

theorem unpack_ofBits (bits : UInt64) :
    (Float.ofBits bits).toModel.unpack = UnpackedFloat.unpack .binary64 bits.toBitVec := by
  change UnpackedFloat.unpack .binary64 (UnpackedFloat.pack .binary64
    (UnpackedFloat.unpack .binary64 bits.toBitVec)) = _
  by_cases hnumber : @UnpackedFloat.unpackExponent .binary64 bits.toBitVec = -1#11 ∧
      @UnpackedFloat.unpackMantissa .binary64 bits.toBitVec ≠ 0#52
  · have hunpack : UnpackedFloat.unpack .binary64 bits.toBitVec = .notANumber := by
      simp only [UnpackedFloat.unpack, if_pos hnumber.1, if_neg hnumber.2]
    rw [hunpack]
    rfl
  · rw [UnpackedFloat.pack_unpack_of_valid ⟨fun hspecial hne => absurd ⟨hspecial, hne⟩ hnumber⟩]

theorem exact_ofBits_eq_iff (bits : UInt64) (q : ℚ) :
    exact (.ofBits bits) = Extended.ofRat q ↔ denoted? bits = some q := by
  rw [exact, unpack_ofBits]
  exact exactOf_unpack bits.toBitVec q

end Double

/-! ### Views of script values -/

namespace Script.Value
open Double

theorem isIntegralIn_iff {low stop : Float} {a b : Int} (hlow : exact low = Extended.ofRat a)
    (hstop : exact stop = Extended.ofRat b) (x : Float) :
    isIntegralIn x low stop = true ↔ ∃ k : Int, exact x = Extended.ofRat k ∧ a ≤ k ∧ k < b := by
  rw [isIntegralIn, Bool.and_eq_true, Bool.and_eq_true, Bool.and_eq_true, decide_eq_true_iff,
    decide_eq_true_iff, isFinite_iff]
  constructor
  · rintro ⟨⟨⟨⟨q, hx⟩, hfract⟩, hle⟩, hlt⟩
    obtain ⟨k, rfl⟩ := (fract_eq_zero_iff hx).mp hfract
    rw [le_iff_of_exact hlow hx, Int.cast_le] at hle
    rw [lt_iff_of_exact hx hstop, Int.cast_lt] at hlt
    exact ⟨k, hx, hle, hlt⟩
  · rintro ⟨k, hx, hle, hlt⟩
    rw [le_iff_of_exact hlow hx, lt_iff_of_exact hx hstop, fract_eq_zero_iff hx, Int.cast_le,
      Int.cast_lt]
    exact ⟨⟨⟨⟨k, hx⟩, k, rfl⟩, hle⟩, hlt⟩

/-- A conversion that keeps the numbers of the range is never asked for another one. -/
theorem view_eq_some_iff {α : Type} {low stop : Float} {a b : Int} {f : Float → α} {g : α → Int}
    (hlow : exact low = Extended.ofRat a) (hstop : exact stop = Extended.ofRat b)
    (hkept : ∀ x (k : Int), exact x = Extended.ofRat k → a ≤ k → k < b → g (f x) = k)
    (x : Float) (k : Int) :
    (if isIntegralIn x low stop then some (f x) else none).map g = some k
      ↔ exact x = Extended.ofRat k ∧ a ≤ k ∧ k < b := by
  have htest := isIntegralIn_iff hlow hstop x
  split
  next hwhole =>
    obtain ⟨n, hx, hn⟩ := htest.mp hwhole
    rw [Option.map_some, hkept x n hx hn.1 hn.2, Option.some.injEq, hx, Extended.ofRat_inj,
      Int.cast_inj]
    constructor
    · rintro rfl
      exact ⟨rfl, hn⟩
    · exact fun hk => hk.1
  next hwhole => exact iff_of_false nofun fun hk => hwhole (htest.mpr ⟨k, hk⟩)

/-! #### The ends of the ranges, and the conversions within them -/

theorem exact_signedLow : exact signedLow = Extended.ofRat (-2 ^ 63 : Int) := by
  have hunpack : signedLow.toModel.unpack = .finite .negative (2 ^ 52) 11 (by decide) := by rfl
  rw [exact, hunpack, exactOf_negative]
  norm_num

theorem exact_signedEnd : exact signedEnd = Extended.ofRat (2 ^ 63 : Int) := by
  have hunpack : signedEnd.toModel.unpack = .finite .positive (2 ^ 52) 11 (by decide) := by rfl
  rw [exact, hunpack, exactOf_positive]
  norm_num

theorem exact_zero : exact 0 = Extended.ofRat (0 : Int) := by
  rw [Int.cast_zero]
  rfl

theorem exact_unsignedEnd : exact unsignedEnd = Extended.ofRat (2 ^ 64 : Int) := by
  have hunpack : unsignedEnd.toModel.unpack = .finite .positive (2 ^ 52) 12 (by decide) := by rfl
  rw [exact, hunpack, exactOf_positive]
  norm_num

theorem toInt_toInt64 {x : Float} {k : Int} (hx : exact x = Extended.ofRat k) (hlow : -2 ^ 63 ≤ k)
    (hhigh : k < 2 ^ 63) : x.toModel.toInt64.toInt = k := by
  have hmin : Int64.minValue.toInt = -2 ^ 63 := Int64.toInt_minValue
  have hmax : Int64.maxValue.toInt = 2 ^ 63 - 1 := Int64.toInt_maxValue
  change (Int64.ofIntClamp (x.toModel.unpack.toInt _ _)).toInt = k
  rw [toInt_eq k hx, Int64.toInt_ofIntClamp (by omega) (by omega)]

theorem toNat_toUInt64 {x : Float} {k : Int} (hx : exact x = Extended.ofRat k) (hlow : 0 ≤ k)
    (hhigh : k < 2 ^ 64) : (x.toUInt64.toNat : Int) = k := by
  have hlt : k.toNat < UInt64.size := by
    rw [UInt64.size]
    omega
  change ((UInt64.ofNatClamp (x.toModel.unpack.toInt _ _).toNat).toNat : Int) = k
  rw [toInt_eq k hx, UInt64.ofNatClamp_eq_ofNat _ hlt, UInt64.toNat_ofNat_of_lt' hlt,
    Int.toNat_of_nonneg hlow]

theorem signed?_number (x : Float) (k : Int) :
    (number x).signed?.map Int64.toInt = some k
      ↔ exact x = Extended.ofRat k ∧ -2 ^ 63 ≤ k ∧ k < 2 ^ 63 :=
  view_eq_some_iff exact_signedLow exact_signedEnd (fun _ _ => toInt_toInt64) x k

theorem unsigned?_number (x : Float) (k : Int) :
    ((number x).unsigned?.map fun n => (n.toNat : Int)) = some k
      ↔ exact x = Extended.ofRat k ∧ 0 ≤ k ∧ k < 2 ^ 64 :=
  view_eq_some_iff (g := fun n : UInt64 => (n.toNat : Int)) exact_zero exact_unsignedEnd
    (fun _ _ => toNat_toUInt64) x k

theorem toInt_of_unsigned?_integer {n : Int64} {b : UInt64} (h : (integer n).unsigned? = some b) :
    n.toInt = b.toNat := by
  rw [unsigned?] at h
  split at h
  next hn =>
    have hlt : n.toInt.toNat < UInt64.size := by
      have := n.toInt_lt
      rw [UInt64.size]
      omega
    rw [Option.some.injEq] at h
    rw [← h, UInt64.toNat_ofNat_of_lt' hlt, Int.toNat_of_nonneg hn]
  next => cases h

/-- The unsigned view takes back every unsigned number. A floating-point number has a view if its
bits denote a whole number in the range of the view, and the view is that number; so it is never one
that was rounded, or put in place of one outside the range. Where a value has both views they
agree. -/
theorem numeric_views_exact :
    (∀ n : UInt64, (ofUInt64 n).unsigned? = some n) ∧
    (∀ (bits : UInt64) (k : Int), (number (.ofBits bits)).signed?.map Int64.toInt = some k
      ↔ denoted? bits = some (k : ℚ) ∧ -2 ^ 63 ≤ k ∧ k < 2 ^ 63) ∧
    (∀ (bits : UInt64) (k : Int),
      ((number (.ofBits bits)).unsigned?.map fun n => (n.toNat : Int)) = some k
        ↔ denoted? bits = some (k : ℚ) ∧ 0 ≤ k ∧ k < 2 ^ 64) ∧
    ∀ (v : Value) (a : Int64) (b : UInt64),
      v.signed? = some a → v.unsigned? = some b → a.toInt = b.toNat := by
  refine ⟨unsigned?_ofUInt64, fun bits k => ?_, fun bits k => ?_, fun v a b ha hb => ?_⟩
  · rw [signed?_number, exact_ofBits_eq_iff]
  · rw [unsigned?_number, exact_ofBits_eq_iff]
  · cases v with
    | integer n =>
      cases ha
      exact toInt_of_unsigned?_integer hb
    | number x =>
      have hsigned := (signed?_number x a.toInt).mp (by rw [ha]; rfl)
      have hunsigned := (unsigned?_number x b.toNat).mp (by rw [hb]; rfl)
      have heq := hsigned.1.symm.trans hunsigned.1
      rw [Extended.ofRat_inj] at heq
      exact_mod_cast heq
    | _ => cases ha

/-- The last floating-point number before the end of the signed range. -/
theorem numeric_views_exact_last :
    let v := number (.ofBits 0x43DFFFFFFFFFFFFF)
    v.signed? = some (2 ^ 63 - 1024) ∧ v.unsigned? = some (2 ^ 63 - 1024) ∧
      (2 ^ 63 - 1024 : Int64).toInt = (2 ^ 63 - 1024 : UInt64).toNat := by
  intro v
  have hsigned : v.signed? = some (2 ^ 63 - 1024) := by decide +kernel
  have hunsigned : v.unsigned? = some (2 ^ 63 - 1024) := by decide +kernel
  exact ⟨hsigned, hunsigned, numeric_views_exact.2.2.2 v _ _ hsigned hunsigned⟩

-- zero with a minus sign
example : (number (.ofBits 0x8000000000000000)).unsigned? = some 0 := by decide +kernel

end Script.Value
end PathPolicy
