import PathPolicy.Proofs.Near

/-!
Sums of numbers that are not negative, in double precision. Each addition and each conversion of a
whole number is near the exact result, or does not change it; and no rounding takes a number below
a power of two that it has reached.
-/
namespace PathPolicy.Double
open Float.Model
open UnpackedFloat (Sign)

def Rounds (q v : ℚ) : Prop := v = q ∨ Near q v

theorem Near.pow_le {q v : ℚ} {k : Nat} (h : Near q v) (hk : 2 ^ k ≤ q) : 2 ^ k ≤ v := by
  obtain ⟨w, t, rfl, hfull, hhalf⟩ := h
  have hpos : (0 : ℚ) < 2 ^ t := zpow_pos (by norm_num) t
  rw [abs_le] at hhalf
  rcases le_or_gt t k with hle | hlt
  · -- both are whole multiples of the last place
    obtain ⟨d, hd⟩ := Int.le.dest hle
    have hpow : (2 : ℚ) ^ k = (2 ^ d : Nat) * 2 ^ t := by
      rw [← zpow_natCast, ← hd, zpow_add₀ (by norm_num), zpow_natCast]
      push_cast
      ring
    rw [hpow] at hk ⊢
    refine mul_le_mul_of_nonneg_right ?_ hpos.le
    by_contra hlow
    have hwhole : (w : ℚ) + 1 ≤ (2 ^ d : Nat) := by
      have : w < 2 ^ d := by exact_mod_cast not_le.mp hlow
      exact_mod_cast this
    have := mul_le_mul_of_nonneg_right hwhole hpos.le
    linarith
  · have hpow : (2 : ℚ) ^ k ≤ 2 ^ t := by
      rw [← zpow_natCast]
      exact zpow_le_zpow_right₀ (by norm_num) hlt.le
    have hhigh : (2 : ℚ) ^ (t + 52) = 2 ^ t * 2 ^ 52 := by
      rw [zpow_add₀ (by norm_num)]
      norm_num
    rw [hhigh] at hfull
    linarith

namespace Rounds
variable {q v : ℚ}

theorem error (h : Rounds q v) (hq : 0 ≤ q) : |v - q| ≤ q / 2 ^ 53 := by
  rcases h with rfl | h
  · rw [sub_self, abs_zero]
    positivity
  · exact h.error

theorem pow_le {k : Nat} (h : Rounds q v) (hk : 2 ^ k ≤ q) : 2 ^ k ≤ v := by
  rcases h with rfl | h
  · exact hk
  · exact h.pow_le hk

theorem nonneg (h : Rounds q v) (hq : 0 ≤ q) : 0 ≤ v := by
  have herror := h.error hq
  rw [abs_le] at herror
  have hsmall : q / 2 ^ 53 ≤ q := div_le_self hq (by norm_num)
  linarith

end Rounds

/-- The number is as far off as so many roundings can take it. -/
structure Drifts (n : Nat) (q v : ℚ) : Prop where
  lower : q * (1 - 1 / 2 ^ 53) ^ n ≤ v
  upper : v ≤ q * (1 + 1 / 2 ^ 53) ^ n

namespace Drifts
variable {n : Nat} {p q v w : ℚ}

theorem refl (q : ℚ) : Drifts 0 q q := by
  constructor <;> rw [pow_zero, mul_one]

theorem mono {m : Nat} (h : Drifts n q v) (hq : 0 ≤ q) (hnm : n ≤ m) : Drifts m q v where
  lower :=
    (mul_le_mul_of_nonneg_left (pow_le_pow_of_le_one (by norm_num) (by norm_num) hnm) hq).trans
      h.lower
  upper := h.upper.trans (mul_le_mul_of_nonneg_left (pow_le_pow_right₀ (by norm_num) hnm) hq)

theorem add (hp : Drifts n p v) (hq : Drifts n q w) : Drifts n (p + q) (v + w) where
  lower := by
    rw [add_mul]
    exact add_le_add hp.lower hq.lower
  upper := by
    rw [add_mul]
    exact add_le_add hp.upper hq.upper

theorem round (h : Drifts n q v) (hv : 0 ≤ v) (hround : Rounds v w) : Drifts (n + 1) q w := by
  have herror := hround.error hv
  rw [abs_le] at herror
  constructor
  · calc
      q * (1 - 1 / 2 ^ 53) ^ (n + 1) = q * (1 - 1 / 2 ^ 53) ^ n * (1 - 1 / 2 ^ 53) := by ring
      _ ≤ v * (1 - 1 / 2 ^ 53) := mul_le_mul_of_nonneg_right h.lower (by norm_num)
      _ ≤ w := by linarith
  · calc
      w ≤ v * (1 + 1 / 2 ^ 53) := by linarith
      _ ≤ q * (1 + 1 / 2 ^ 53) ^ n * (1 + 1 / 2 ^ 53) :=
        mul_le_mul_of_nonneg_right h.upper (by norm_num)
      _ = q * (1 + 1 / 2 ^ 53) ^ (n + 1) := by ring

end Drifts

/-! ### Rounded results -/

theorem normal_of_one_le {q : ℚ} (hlow : 1 ≤ q) (hhigh : q ≤ 2 ^ 200) : Normal q := by
  constructor
  · exact (zpow_le_one_of_nonpos₀ (by norm_num) (by norm_num)).trans hlow
  · exact hhigh.trans_lt (pow_lt_pow_right₀ (by norm_num) (by norm_num))

theorem rounds_normalize {n : Nat} {e : Int} (s : Sign) (hn : 0 < n)
    (hnormal : Normal (n * 2 ^ e)) :
    ∃ v, exactOf (Float.Model.pack (UnpackedFloat.normalize .binary64 n e s)).unpack
      = Extended.ofRat v ∧ Rounds (n * 2 ^ e) v := by
  obtain ⟨m, f, hm, hround, hc, hf, hnear⟩ := round_near .positive hn hnormal
  refine ⟨m * 2 ^ f, ?_, .inr hnear⟩
  have hsign : compare (n : Int) 0 = .gt := compare_gt_iff_gt.mpr (by omega)
  rw [UnpackedFloat.normalize, hsign]
  exact (congrArg (fun u => exactOf (Float.Model.pack u).unpack) hround).trans (exact_pack hc hf)

theorem rounds_ofInt {n : Nat} (hn : n ≤ 2 ^ 200) :
    ∃ v, exact (ofInt n) = Extended.ofRat v ∧ Rounds n v := by
  rcases Nat.eq_zero_or_pos n with rfl | hpos
  · exact ⟨0, rfl, .inl rfl⟩
  · have hnormal : Normal ((n : ℚ) * 2 ^ (0 : Int)) := by
      rw [zpow_zero, mul_one]
      exact normal_of_one_le (by exact_mod_cast hpos) (by exact_mod_cast hn)
    have hround := rounds_normalize .positive hpos hnormal
    rwa [zpow_zero, mul_one] at hround

theorem rounds_ofScientific {n : Nat} (hlow : 2 ^ 53 ≤ n) (hn : n ≤ 2 ^ 200) :
    ∃ v, exact (Float.ofScientific n false 0) = Extended.ofRat v ∧ Rounds n v := by
  have hvalue : ((n <<< 53 : Nat) : ℚ) * 2 ^ (-53 : Int) = n := by
    have hshift := shiftLeft_mul n 53 0
    rwa [zpow_zero, mul_one] at hshift
  have hnormal : Normal (((n <<< 53 : Nat) : ℚ) * 2 ^ (-53 : Int)) := by
    rw [hvalue]
    have hone : 1 ≤ n := Nat.one_le_two_pow.trans hlow
    exact normal_of_one_le (by exact_mod_cast hone) (by exact_mod_cast hn)
  obtain ⟨k, hk⟩ := Int.le.dest (le_target_shifted hlow)
  obtain ⟨m, f, hm, hround, hc, hf, hnear⟩ := round_normal_whole .positive hk.symm hnormal
  rw [hvalue] at hnear
  refine ⟨m * 2 ^ f, ?_, .inr hnear⟩
  rw [exact, unpack_ofScientific hlow, hround]
  exact exact_pack hc hf

/-! ### Sums -/

variable {x y : Float} {p q : ℚ}

theorem pack_unpack (x : Float) : Float.ofModel (.pack x.toModel.unpack) = x := by
  obtain ⟨⟨bits, valid⟩⟩ := x
  have hbits := UnpackedFloat.pack_unpack_of_valid valid
  rw [Float.Model.unpack, Float.Model.pack]
  simp only [hbits]

theorem unpack_of_exact_zero (hx : exact x = Extended.ofRat 0) :
    ∃ s, x.toModel.unpack = .zero s := by
  obtain ⟨s, hu, -⟩ | ⟨s, m, e, hm, -, hzero, -⟩ := cases_of_exact hx
  · exact ⟨s, hu⟩
  · have hpos := magnitude_pos hm e
    rw [← abs_apply_mul s m e, ← hzero, abs_zero] at hpos
    exact absurd hpos (lt_irrefl 0)

theorem exact_add_zero (hx : exact x = Extended.ofRat p) (hy : exact y = Extended.ofRat 0) :
    exact (x + y) = Extended.ofRat p := by
  obtain ⟨t, hv⟩ := unpack_of_exact_zero hy
  have hsum :
      x + y = .ofModel (.pack (UnpackedFloat.add .binary64 x.toModel.unpack (.zero t))) := by
    rw [← hv]
    rfl
  obtain ⟨s, hu, rfl⟩ | ⟨s, m, e, hm, hu, -, -⟩ := cases_of_exact hx
  · rw [hsum, hu]
    cases s <;> cases t <;> rfl
  · have hadd : UnpackedFloat.add .binary64 x.toModel.unpack (.zero t) = x.toModel.unpack := by
      rw [hu]
      rfl
    rw [hsum, hadd, pack_unpack, hx]

theorem exact_zero_add (hx : exact x = Extended.ofRat 0) (hy : exact y = Extended.ofRat q) :
    exact (x + y) = Extended.ofRat q := by
  obtain ⟨s, hu⟩ := unpack_of_exact_zero hx
  have hsum :
      x + y = .ofModel (.pack (UnpackedFloat.add .binary64 (.zero s) y.toModel.unpack)) := by
    rw [← hu]
    rfl
  obtain ⟨t, hv, rfl⟩ | ⟨t, n, f, hn, hv, -, -⟩ := cases_of_exact hy
  · rw [hsum, hv]
    cases s <;> cases t <;> rfl
  · have hadd : UnpackedFloat.add .binary64 (.zero s) y.toModel.unpack = y.toModel.unpack := by
      rw [hv]
      rfl
    rw [hsum, hadd, pack_unpack, hy]

theorem rounds_add (hx : exact x = Extended.ofRat p) (hp : 0 ≤ p)
    (hy : exact y = Extended.ofRat q) (hq : 0 ≤ q) (hnormal : Normal (p + q)) :
    ∃ v, exact (x + y) = Extended.ofRat v ∧ Rounds (p + q) v := by
  rcases hp.eq_or_lt with rfl | hp
  · exact ⟨q, exact_zero_add hx hy, .inl (zero_add q).symm⟩
  rcases hq.eq_or_lt with rfl | hq
  · exact ⟨p, exact_add_zero hx hy, .inl (add_zero p).symm⟩
  obtain ⟨m, e, hm, hu, rfl, -⟩ := positive_of_exact hx hp
  obtain ⟨n, f, hn, hv, rfl, -⟩ := positive_of_exact hy hq
  obtain ⟨k, hk⟩ : ∃ k : Nat, (UnpackedFloat.decreaseExponent m e (min e f)).1
    + (UnpackedFloat.decreaseExponent n f (min e f)).1 = k := ⟨_, rfl⟩
  have hvalue : (m * 2 ^ e + n * 2 ^ f : ℚ) = k * 2 ^ min e f := by
    have hleft := apply_decreaseExponent .positive m (min_le_left e f)
    have hright := apply_decreaseExponent .positive n (min_le_right e f)
    simp only [Sign.apply, Int.cast_natCast] at hleft hright
    rw [← hk, Nat.cast_add, add_mul, hleft, hright]
  rw [hvalue] at hnormal ⊢
  have hpos : 0 < k := by
    refine Nat.pos_of_ne_zero fun hzero => ?_
    rw [hzero, Nat.cast_zero, zero_mul] at hnormal
    exact absurd hnormal.1 (zpow_pos (by norm_num) _).not_ge
  obtain ⟨v, hround, hrounds⟩ := rounds_normalize .positive hpos hnormal
  refine ⟨v, ?_, hrounds⟩
  rw [← hround, ← hk]
  change exactOf (Float.Model.pack (UnpackedFloat.add .binary64 x.toModel.unpack
    y.toModel.unpack)).unpack = _
  rw [hu, hv]
  rfl

end PathPolicy.Double
