import Mathlib
import PathPolicy.Float

/-!
The order of floating-point numbers is that of the numbers they denote. Bits denote a number in
one way only, so that exponents can be compared before significands.
-/
namespace PathPolicy
open Float.Model

/-- The rational numbers between two infinities. -/
abbrev Extended := WithBot (WithTop ℚ)

def Extended.ofRat (q : ℚ) : Extended := ((q : WithTop ℚ) : Extended)

@[simp] theorem Extended.ofRat_lt_ofRat {p q : ℚ} : ofRat p < ofRat q ↔ p < q := by
  simp [ofRat]

@[simp] theorem Extended.ofRat_le_ofRat {p q : ℚ} : ofRat p ≤ ofRat q ↔ p ≤ q := by
  simp [ofRat]

@[simp] theorem Extended.ofRat_inj {p q : ℚ} : ofRat p = ofRat q ↔ p = q := by
  simp [ofRat]

@[simp] theorem Extended.ofRat_lt_top (q : ℚ) : ofRat q < ⊤ :=
  WithBot.coe_lt_coe.mpr (WithTop.coe_lt_top q)

@[simp] theorem Extended.bot_lt_ofRat (q : ℚ) : ⊥ < ofRat q := WithBot.bot_lt_coe _

theorem Extended.eq_ofRat_of_lt_top {x : Extended} (h : x < ⊤) : x = ⊥ ∨ ∃ q, x = ofRat q := by
  cases x using WithBot.recBotCoe with
  | bot => exact Or.inl rfl
  | coe x =>
    cases x using WithTop.recTopCoe with
    | top => exact absurd h (lt_irrefl _)
    | coe q => exact Or.inr ⟨q, rfl⟩

namespace Double

/-- The number that is denoted. What is no number lies above all numbers. -/
def exactOf : UnpackedFloat → Extended
  | .notANumber | .infinity .positive => ⊤
  | .infinity .negative => ⊥
  | .zero _ => Extended.ofRat 0
  | .finite s m e _ => Extended.ofRat (s.apply m * 2 ^ e)

def exact (x : Float) : Extended := exactOf x.toModel.unpack

/-! ### Significands and exponents -/

/-- Only with the least exponent may the significand have fewer than 53 bits. -/
structure Canonical (m : Nat) (e : Int) : Prop where
  lt : m < 2 ^ 53
  least_le : -1074 ≤ e
  full : e = -1074 ∨ 2 ^ 52 ≤ m

theorem toNat_one_append (v : BitVec 52) : (1#1 ++ v).toNat = 2 ^ 52 + v.toNat := by
  rw [BitVec.toNat_append, ← Nat.shiftLeft_add_eq_or_of_lt v.isLt]
  rfl

theorem canonical_of_unpack {x : Float} {s : UnpackedFloat.Sign} {m : Nat} {e : Int} {h : 0 < m}
    (hx : x.toModel.unpack = .finite s m e h) : Canonical m e := by
  simp only [Float.Model.unpack, UnpackedFloat.unpack] at hx
  have hfraction := (@UnpackedFloat.unpackMantissa .binary64 x.toModel.toBits.toBitVec).isLt
  have hoffset : (Format.binary64.exponentBias : Int)
      + Format.binary64.mantissaBitsWithoutImplicit = 1075 := by rfl
  split at hx
  · split at hx <;> cases hx
  · split at hx
    · split at hx
      · cases hx
      next hexponent _ =>
        have hzero := congrArg BitVec.toNat hexponent
        cases hx
        constructor <;> simp at * <;> omega
    next hexponent =>
      have hpos := mt BitVec.eq_of_toNat_eq hexponent
      cases hx
      constructor
      · rw [toNat_one_append]
        simp at *
        omega
      · simp at *
        omega
      · rw [toNat_one_append]
        simp at *

theorem magnitude_lt_of_exponent_lt {m n : Nat} {e f : Int} (hm : m < 2 ^ 53) (hn : 2 ^ 52 ≤ n)
    (h : e < f) : (m : ℚ) * 2 ^ e < n * 2 ^ f := by
  have htwo : (0 : ℚ) < 2 := by norm_num
  calc
    (m : ℚ) * 2 ^ e < 2 ^ 53 * 2 ^ e := by
      have hm' : (m : ℚ) < 2 ^ 53 := by exact_mod_cast hm
      exact mul_lt_mul_of_pos_right hm' (zpow_pos htwo e)
    _ = 2 ^ 52 * 2 ^ (e + 1) := by
      rw [zpow_add_one₀ htwo.ne']
      ring
    _ ≤ 2 ^ 52 * 2 ^ f := by
      have hpow : (2 : ℚ) ^ (e + 1) ≤ 2 ^ f := zpow_le_zpow_right₀ (by norm_num) (by omega)
      exact mul_le_mul_of_nonneg_left hpow (by positivity)
    _ ≤ n * 2 ^ f := by
      have hn' : (2 : ℚ) ^ 52 ≤ n := by exact_mod_cast hn
      exact mul_le_mul_of_nonneg_right hn' (zpow_pos htwo f).le

theorem magnitude_lt_iff {m n : Nat} {e f : Int} (hm : Canonical m e) (hn : Canonical n f) :
    (m : ℚ) * 2 ^ e < n * 2 ^ f ↔ e < f ∨ e = f ∧ m < n := by
  have hm_least := hm.least_le
  have hn_least := hn.least_le
  rcases lt_trichotomy e f with h | h | h
  · have hfull : 2 ^ 52 ≤ n := by
      have := hn.full
      omega
    simp [h, magnitude_lt_of_exponent_lt hm.lt hfull h]
  · subst h
    have hpow : (0 : ℚ) < 2 ^ e := zpow_pos (by norm_num) e
    simp [mul_lt_mul_iff_left₀ hpow]
  · have hfull : 2 ^ 52 ≤ m := by
      have := hm.full
      omega
    have hlt := magnitude_lt_of_exponent_lt hn.lt hfull h
    constructor
    · intro hle
      exact absurd hlt hle.not_gt
    · rintro (hle | ⟨rfl, -⟩)
      · omega
      · omega

/-! ### Comparisons -/

theorem lt_iff_compare (x y : Float) :
    x < y ↔ UnpackedFloat.compare x.toModel.unpack y.toModel.unpack = some .lt := by
  change decide (UnpackedFloat.lt x.toModel.unpack y.toModel.unpack = true) = true ↔ _
  rw [decide_eq_true_iff, UnpackedFloat.lt, beq_iff_eq]

theorem le_iff_le (x y : Float) :
    x ≤ y ↔ UnpackedFloat.le x.toModel.unpack y.toModel.unpack = true := by
  change decide (UnpackedFloat.le x.toModel.unpack y.toModel.unpack = true) = true ↔ _
  rw [decide_eq_true_iff]

theorem exactOf_negative {m : Nat} {e : Int} (h : 0 < m) :
    exactOf (.finite .negative m e h) = Extended.ofRat (-(m * 2 ^ e)) := by
  simp [exactOf, UnpackedFloat.Sign.apply]

theorem exactOf_positive {m : Nat} {e : Int} (h : 0 < m) :
    exactOf (.finite .positive m e h) = Extended.ofRat (m * 2 ^ e) := by
  simp [exactOf, UnpackedFloat.Sign.apply]

theorem magnitude_pos {m : Nat} (h : 0 < m) (e : Int) : (0 : ℚ) < m * 2 ^ e :=
  mul_pos (by exact_mod_cast h) (zpow_pos (by norm_num) e)

theorem then_eq_lt_iff {m n : Nat} {e f : Int} :
    (compare e f).then (compare m n) = .lt ↔ e < f ∨ e = f ∧ m < n := by
  rw [Ordering.then_eq_lt, compare_lt_iff_lt, compare_eq_iff_eq, compare_lt_iff_lt]

theorem then_eq_gt_iff {m n : Nat} {e f : Int} :
    (compare e f).then (compare m n) = .gt ↔ f < e ∨ f = e ∧ n < m := by
  rw [Ordering.then_eq_gt, compare_gt_iff_gt, compare_eq_iff_eq, compare_gt_iff_gt,
    eq_comm (a := e)]

theorem compare_finite_iff {s t : UnpackedFloat.Sign} {m n : Nat} {e f : Int} (hm : 0 < m)
    (hn : 0 < n) (hcm : Canonical m e) (hcn : Canonical n f) :
    UnpackedFloat.compare (.finite s m e hm) (.finite t n f hn) = some .lt ↔
      exactOf (.finite s m e hm) < exactOf (.finite t n f hn) := by
  have hmpos := magnitude_pos hm e
  have hnpos := magnitude_pos hn f
  cases s with
  | negative =>
    cases t with
    | negative =>
      -- the smaller magnitude is the larger number
      rw [exactOf_negative, exactOf_negative, Extended.ofRat_lt_ofRat, neg_lt_neg_iff,
        magnitude_lt_iff hcn hcm, UnpackedFloat.compare, Option.some.injEq,
        Ordering.swap_eq_lt, then_eq_gt_iff]
    | positive =>
      rw [exactOf_negative, exactOf_positive, Extended.ofRat_lt_ofRat]
      have hlt : -((m : ℚ) * 2 ^ e) < n * 2 ^ f := by linarith
      simp [UnpackedFloat.compare, hlt]
  | positive =>
    cases t with
    | negative =>
      rw [exactOf_positive, exactOf_negative, Extended.ofRat_lt_ofRat]
      have hle : -((n : ℚ) * 2 ^ f) ≤ m * 2 ^ e := by linarith
      simp [UnpackedFloat.compare, hle]
    | positive =>
      rw [exactOf_positive, exactOf_positive, Extended.ofRat_lt_ofRat, magnitude_lt_iff hcm hcn,
        UnpackedFloat.compare, Option.some.injEq, then_eq_lt_iff]

theorem lt_iff_exact_lt {x y : Float} (hy : y.toModel.unpack ≠ .notANumber) :
    x < y ↔ exact x < exact y := by
  rw [lt_iff_compare, exact, exact]
  cases hu : x.toModel.unpack with
  | notANumber => simp [UnpackedFloat.compare, exactOf]
  | infinity s =>
    cases hv : y.toModel.unpack with
    | notANumber => exact absurd hv hy
    | infinity t =>
      cases s <;> cases t <;> simp [UnpackedFloat.compare, exactOf]
      rfl
    | zero t => cases s <;> simp [UnpackedFloat.compare, exactOf]
    | finite t n f hn => cases s <;> simp [UnpackedFloat.compare, exactOf]
  | zero s =>
    cases hv : y.toModel.unpack with
    | notANumber => exact absurd hv hy
    | infinity t => cases t <;> simp [UnpackedFloat.compare, exactOf]
    | zero t => simp [UnpackedFloat.compare, exactOf]
    | finite t n f hn =>
      have hpos := magnitude_pos hn f
      cases t with
      | negative =>
        rw [exactOf_negative]
        simp [UnpackedFloat.compare, exactOf, hpos.le]
      | positive =>
        rw [exactOf_positive]
        simp [UnpackedFloat.compare, exactOf, hpos]
  | finite s m e hm =>
    have hmpos := magnitude_pos hm e
    cases hv : y.toModel.unpack with
    | notANumber => exact absurd hv hy
    | infinity t => cases s <;> cases t <;> simp [UnpackedFloat.compare, exactOf]
    | zero t =>
      cases s with
      | negative =>
        rw [exactOf_negative]
        simp [UnpackedFloat.compare, exactOf, hmpos]
      | positive =>
        rw [exactOf_positive]
        simp [UnpackedFloat.compare, exactOf, hmpos.le]
    | finite t n f hn =>
      exact compare_finite_iff hm hn (canonical_of_unpack hu) (canonical_of_unpack hv)

theorem cast_scaled (b e : Int) :
    ((b * Nat.pow 2 e.toNat : Int) : ℚ) = b * 2 ^ e * 2 ^ (-e).toNat := by
  have hpow : (2 : ℚ) ^ e.toNat = 2 ^ e * 2 ^ (-e).toNat := by
    rw [← zpow_natCast, ← zpow_natCast, ← zpow_add₀ (by norm_num)]
    congr 1
    omega
  rw [mul_assoc, ← hpow]
  simp

theorem lt_scaled_iff (a b e : Int) :
    a * Nat.pow 2 (-e).toNat < b * Nat.pow 2 e.toNat ↔ (a : ℚ) < b * 2 ^ e := by
  have hpow : (0 : ℚ) < 2 ^ (-e).toNat := by positivity
  rw [← mul_lt_mul_iff_left₀ hpow, ← Int.cast_lt (R := ℚ), cast_scaled b e]
  simp

theorem scaled_lt_iff (a b e : Int) :
    b * Nat.pow 2 e.toNat < a * Nat.pow 2 (-e).toNat ↔ (b * 2 ^ e : ℚ) < a := by
  have hpow : (0 : ℚ) < 2 ^ (-e).toNat := by positivity
  rw [← mul_lt_mul_iff_left₀ hpow, ← Int.cast_lt (R := ℚ), cast_scaled b e]
  simp

theorem intLt_iff_exact_lt {n : Int} {x : Float} (hx : x.toModel.unpack ≠ .notANumber) :
    intLt n x ↔ Extended.ofRat n < exact x := by
  rw [intLt, exact]
  cases hu : x.toModel.unpack with
  | notANumber => exact absurd hu hx
  | infinity s => cases s <;> simp [exactOf]
  | zero s => simp [exactOf]
  | finite s m e h =>
    simp only [exactOf, Extended.ofRat_lt_ofRat, decide_eq_true_iff]
    exact lt_scaled_iff n _ e

theorem ltInt_iff_exact_lt {n : Int} {x : Float} :
    ltInt x n ↔ exact x < Extended.ofRat n := by
  rw [ltInt, exact]
  cases hu : x.toModel.unpack with
  | notANumber => simp [exactOf]
  | infinity s => cases s <;> simp [exactOf]
  | zero s => simp [exactOf]
  | finite s m e h =>
    simp only [exactOf, Extended.ofRat_lt_ofRat, decide_eq_true_iff]
    exact scaled_lt_iff n _ e

end Double
end PathPolicy
