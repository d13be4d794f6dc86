import PathPolicy.Proofs.Arithmetic

/-!
Rounding a fraction, in any format. A fraction is held as its whole part and by how what is left of
it compares with a half, and dropping bits of it is dividing by a power of two.
-/
namespace PathPolicy
open Float.Model
open UnpackedFloat (ExtendedMantissa Sign Accuracy accuracyOfFraction)

/-! ### The nearest whole number -/

/-- The whole number nearest to `a / b`, of two the even one. -/
def nearestWhole (a b : Nat) : Nat := (accuracyOfFraction (a % b) b).roundToNearestEven (a / b)

variable {a b : Nat}

theorem nearestWhole_cases (hb : 0 < b) :
    2 * a < 2 * (a / b * b) + b ∧ nearestWhole a b = a / b ∨
      2 * a = 2 * (a / b * b) + b ∧ nearestWhole a b = a / b + a / b % 2 ∨
      2 * (a / b * b) + b < 2 * a ∧ nearestWhole a b = a / b + 1 := by
  have hdiv := Nat.div_add_mod' a b
  rw [nearestWhole, accuracyOfFraction]
  split
  · left
    constructor
    · omega
    · rfl
  cases hcompare : compare (2 * (a % b)) b with
  | lt =>
    rw [Nat.compare_eq_lt] at hcompare
    exact .inl ⟨by omega, rfl⟩
  | eq =>
    rw [Nat.compare_eq_eq] at hcompare
    exact .inr (.inl ⟨by omega, rfl⟩)
  | gt =>
    rw [Nat.compare_eq_gt] at hcompare
    exact .inr (.inr ⟨by omega, rfl⟩)

theorem nearestWhole_bounds (hb : 0 < b) :
    2 * (nearestWhole a b * b) ≤ 2 * a + b ∧ 2 * a ≤ 2 * (nearestWhole a b * b) + b := by
  have hdiv := Nat.div_add_mod' a b
  have hmod := Nat.mod_lt a hb
  obtain ⟨h, hr⟩ | ⟨h, hr⟩ | ⟨h, hr⟩ := nearestWhole_cases (a := a) hb
  · rw [hr]
    omega
  · rw [hr]
    rcases Nat.mod_two_eq_zero_or_one (a / b) with heven | hodd
    · rw [heven, Nat.add_zero]
      omega
    · rw [hodd, Nat.add_mul]
      omega
  · rw [hr, Nat.add_mul]
    omega

theorem nearestWhole_eq {r : Nat} (hb : 0 < b) (hlow : 2 * (r * b) ≤ 2 * a + b)
    (hhigh : 2 * a ≤ 2 * (r * b) + b)
    (hodd : r % 2 = 1 → 2 * (r * b) < 2 * a + b ∧ 2 * a < 2 * (r * b) + b) :
    nearestWhole a b = r := by
  have hwhole : a / b = r ∨ a / b + 1 = r := by
    have hle : a / b < r + 1 := by
      rw [Nat.div_lt_iff_lt_mul hb, Nat.add_mul]
      omega
    have hge : r ≤ a / b + 1 := by
      rw [← Nat.add_div_right a hb, Nat.le_div_iff_mul_le hb]
      omega
    omega
  have hcases := nearestWhole_cases (a := a) hb
  rcases hwhole with rfl | rfl
  · obtain ⟨-, hr⟩ | ⟨htie, hr⟩ | ⟨hgt, -⟩ := hcases
    · exact hr
    · omega
    · omega
  · rw [Nat.add_mul] at hlow hodd
    obtain ⟨hlt, -⟩ | ⟨htie, hr⟩ | ⟨-, hr⟩ := hcases
    · omega
    · omega
    · exact hr

/-! ### Dropping bits -/

def extended (a b : Nat) : ExtendedMantissa :=
  .ofMantissaAndAccuracy (a / b) (accuracyOfFraction (a % b) b)

theorem roundedMantissa_extended (a b : Nat) : (extended a b).roundedMantissa = nearestWhole a b := by
  rw [extended, nearestWhole, ExtendedMantissa.roundedMantissa]
  cases accuracyOfFraction (a % b) b with
  | exact => rfl
  | inexact order => cases order <;> rfl

theorem mantissa_extended (a b : Nat) : (extended a b).mantissa = a / b := by
  rw [extended]
  cases accuracyOfFraction (a % b) b with
  | exact => rfl
  | inexact order => cases order <;> rfl

theorem extended_eq (hb : 0 < b) : extended a b
    = ⟨a / b, decide (b ≤ 2 * (a % b)), decide (a % b ≠ 0 ∧ 2 * (a % b) ≠ b)⟩ := by
  rw [extended, accuracyOfFraction]
  split
  next hzero =>
    rw [hzero]
    simp [ExtendedMantissa.ofMantissaAndAccuracy, hb.ne']
  next hpos =>
    cases hcompare : compare (2 * (a % b)) b with
    | lt =>
      rw [Nat.compare_eq_lt] at hcompare
      simp [ExtendedMantissa.ofMantissaAndAccuracy, hpos, hcompare, hcompare.ne]
    | eq =>
      rw [Nat.compare_eq_eq] at hcompare
      simp [ExtendedMantissa.ofMantissaAndAccuracy, hcompare]
    | gt =>
      rw [Nat.compare_eq_gt] at hcompare
      simp [ExtendedMantissa.ofMantissaAndAccuracy, hpos, hcompare.le, hcompare.ne']

theorem shiftRightOne_extended (hb : 0 < b) :
    (extended a b).shiftRightOne = extended a (b * 2) := by
  have hmod := Nat.mod_lt a hb
  have hrest : a % (b * 2) = a % b + b * (a / b % 2) := Nat.mod_mul
  rw [extended_eq hb, extended_eq (by omega), ExtendedMantissa.shiftRightOne, hrest,
    Nat.div_div_eq_div_mul]
  rcases Nat.mod_two_eq_zero_or_one (a / b) with h | h <;>
  · simp only [h, ExtendedMantissa.mk.injEq, true_and]
    refine ⟨?_, ?_⟩
    · simp
      omega
    · rw [← Bool.decide_or]
      apply decide_eq_decide.mpr
      omega

theorem shiftRight_extended (hb : 0 < b) (k : Nat) :
    extended a b >>> k = extended a (b * 2 ^ k) := by
  induction k with
  | zero => simp [HShiftRight.hShiftRight, Nat.repeat]
  | succ k ih =>
    change (extended a b >>> k).shiftRightOne = _
    rw [ih, shiftRightOne_extended (Nat.mul_pos hb (Nat.two_pow_pos k)), Nat.pow_succ, Nat.mul_assoc]

/-! ### Rounding to a format -/

/-- The significand has the format's bits; only with the least exponent may it have fewer. -/
structure Representable (format : Format) (m : Nat) (e : Int) : Prop where
  lt : m < 2 ^ format.mantissaBits
  least_le : format.minExponent ≤ e
  full : e = format.minExponent ∨ 2 ^ format.mantissaBits ≤ 2 * m

section Format
variable {format : Format} {s : Sign} {e : Int} {k : Nat}

theorem target_of_representable {r : Nat} (hr : 0 < r) (h : Representable format r e) :
    format.targetExponent (totalExponent r e) = e := by
  have hlog : r.log2 < format.mantissaBits := (Nat.log2_lt hr.ne').mpr h.lt
  have hleast := h.least_le
  rw [Format.targetExponent, totalExponent]
  rcases h.full with he | hfull
  · omega
  · have hlow : format.mantissaBits ≤ r.log2 + 1 := by
      rw [← Nat.log2_two_mul hr.ne', Nat.le_log2 (by omega)]
      exact hfull
    omega

theorem target_of_top (h : format.minExponent ≤ e) :
    format.targetExponent (totalExponent (2 ^ format.mantissaBits) e) = e + 1 := by
  rw [Format.targetExponent, totalExponent, Nat.log2_two_pow]
  omega

theorem shiftToTargetExponent_fraction (hb : 0 < b)
    (hk : format.targetExponent (totalExponent (a / b) e) = e + k) :
    UnpackedFloat.shiftToTargetExponent format (a / b) e (accuracyOfFraction (a % b) b)
      = (extended a (b * 2 ^ k), e + k) := by
  have hshift : (format.targetExponent (totalExponent (a / b) e) - e).toNat = k := by omega
  rw [UnpackedFloat.shiftToTargetExponent, UnpackedFloat.shiftToExponent, hshift]
  exact congrArg (·, e + (k : Int)) (shiftRight_extended hb k)

theorem shiftToTargetExponent_whole {r : Nat}
    (hk : format.targetExponent (totalExponent r e) = e + k) :
    UnpackedFloat.shiftToTargetExponent format r e .exact = (extended r (2 ^ k), e + k) := by
  have hwhole := @shiftToTargetExponent_fraction r 1 format e k Nat.one_pos (by rwa [Nat.div_one])
  rwa [Nat.div_one, Nat.mod_one, Nat.one_mul] at hwhole

/-- Rounding takes the nearest significand, and drops one bit more where it has become too long. -/
theorem roundWithAccuracy_fraction (hb : 0 < b)
    (hk : format.targetExponent (totalExponent (a / b) e) = e + k) {k' : Nat}
    (hk' : format.targetExponent (totalExponent (nearestWhole a (b * 2 ^ k)) (e + k)) = e + k + k') :
    UnpackedFloat.roundWithAccuracy format s (a / b) e (accuracyOfFraction (a % b) b) =
      if h : nearestWhole a (b * 2 ^ k) / 2 ^ k' = 0 then .zero s
      else .finite s (nearestWhole a (b * 2 ^ k) / 2 ^ k') (e + k + k') (Nat.pos_of_ne_zero h) := by
  rw [UnpackedFloat.roundWithAccuracy, shiftToTargetExponent_fraction hb hk]
  simp only [roundedMantissa_extended, shiftToTargetExponent_whole hk', mantissa_extended]

theorem round_of_representable (hb : 0 < b)
    (hk : format.targetExponent (totalExponent (a / b) e) = e + k)
    (hr : 0 < nearestWhole a (b * 2 ^ k))
    (h : Representable format (nearestWhole a (b * 2 ^ k)) (e + k)) :
    UnpackedFloat.roundWithAccuracy format s (a / b) e (accuracyOfFraction (a % b) b)
      = .finite s (nearestWhole a (b * 2 ^ k)) (e + k) hr := by
  rw [@roundWithAccuracy_fraction a b format s e k hb hk 0
    ((target_of_representable hr h).trans (Int.add_zero _).symm), dif_neg (by simpa using hr.ne')]
  exact Double.finite_congr (by simp) (by simp)

theorem round_of_top (hb : 0 < b) (hk : format.targetExponent (totalExponent (a / b) e) = e + k)
    (hr : nearestWhole a (b * 2 ^ k) = 2 ^ format.mantissaBits)
    (hleast : format.minExponent ≤ e + k) :
    UnpackedFloat.roundWithAccuracy format s (a / b) e (accuracyOfFraction (a % b) b)
      = .finite s (2 ^ (format.mantissaBits - 1)) (e + k + 1) (Nat.two_pow_pos _) := by
  have hhalf : nearestWhole a (b * 2 ^ k) / 2 ^ 1 = 2 ^ (format.mantissaBits - 1) := by
    rw [hr, Nat.pow_div (by rw [Format.mantissaBits]; omega) (by decide)]
  rw [@roundWithAccuracy_fraction a b format s e k hb hk 1 (by rw [hr]; exact target_of_top hleast),
    dif_neg (by rw [hhalf]; exact (Nat.two_pow_pos _).ne')]
  exact Double.finite_congr hhalf rfl

end Format
end PathPolicy
