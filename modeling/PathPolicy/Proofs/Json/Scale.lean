import PathPolicy.Json.Scan
import PathPolicy.Proofs.Near

/-!
How far off decimal numbers are read. Whole numbers of up to 53 bits are read exactly and powers of
ten as near as can be, so that one multiplication or division leaves an error of hardly more than
one unit in the last place.
-/
namespace PathPolicy.Json
open Double Float.Model

/-! ### Whole numbers and powers of ten -/

theorem exact_toFloat {n : Nat} (hpos : 0 < n) (hn : n < 2 ^ 53) :
    exact (UInt64.ofNat n).toFloat = Extended.ofRat n := by
  have hsize : (UInt64.ofNat n).toNat = n := UInt64.toNat_ofNat_of_lt' (hn.trans (by decide))
  have hnormal : Normal ((n : ℚ) * 2 ^ (0 : Int)) := by
    have hone : (1 : ℚ) ≤ n := by exact_mod_cast hpos
    have hlt : (n : ℚ) < 2 ^ 53 := by exact_mod_cast hn
    rw [zpow_zero, mul_one]
    exact normal_of_bounds (by linarith) (by linarith)
  obtain ⟨m, e, h, hround, hc, he, hnear⟩ := round_near .positive hpos hnormal
  have hmodel : (UInt64.ofNat n).toFloat.toModel = .pack (.finite .positive m e h) := by
    change Float.Model.pack (UnpackedFloat.normalize .binary64 ((UInt64.ofNat n).toNat : Int) 0 _) = _
    rw [hsize, UnpackedFloat.normalize, compare_gt_iff_gt.mpr (by exact_mod_cast hpos)]
    exact congrArg _ hround
  rw [exact, hmodel, exact_pack hc he]
  have hvalue := hnear.eq_of_short hn
  rw [zpow_zero, mul_one] at hvalue
  rw [← hvalue]
  rfl

def powerIsNear (c : Nat) : Bool :=
  match (powerOfTen c).toModel.unpack with
  | .finite .positive m e _ =>
    let unit := 2 ^ e.toNat
    let scale := 2 ^ (-e).toNat
    2 ^ 52 * unit ≤ 10 ^ c * scale && 2 * (m * unit) ≤ 2 * (10 ^ c * scale) + unit &&
      2 * (10 ^ c * scale) ≤ 2 * (m * unit) + unit
  | _ => false

theorem powerOfTen_near {c : Nat} (hc : c ≤ 50) :
    ∃ p, exact (powerOfTen c) = Extended.ofRat p ∧ Near (10 ^ c) p := by
  have hall : ∀ c ≤ 50, powerIsNear c := by decide +kernel
  have hnear := hall c hc
  rw [powerIsNear] at hnear
  split at hnear
  case h_2 => cases hnear
  case h_1 m e h hu =>
    have hunit : (2 : ℚ) ^ e.toNat = 2 ^ e * 2 ^ (-e).toNat := by
      rw [← zpow_natCast, ← zpow_natCast, ← zpow_add₀ (by norm_num)]
      congr 1
      omega
    simp only [Bool.and_eq_true, decide_eq_true_eq] at hnear
    obtain ⟨⟨hfull, hlow⟩, hhigh⟩ := hnear
    refine ⟨m * 2 ^ e, by rw [exact, hu, exactOf_positive], m, e, rfl, ?_⟩
    have hscale : (0 : ℚ) < 2 ^ (-e).toNat := by positivity
    have hfull' : (2 ^ 52 * 2 ^ e.toNat : ℚ) ≤ 10 ^ c * 2 ^ (-e).toNat := by exact_mod_cast hfull
    have hlow' : (2 * (m * 2 ^ e.toNat) : ℚ) ≤ 2 * (10 ^ c * 2 ^ (-e).toNat) + 2 ^ e.toNat := by
      exact_mod_cast hlow
    have hhigh' : (2 * (10 ^ c * 2 ^ (-e).toNat) : ℚ) ≤ 2 * (m * 2 ^ e.toNat) + 2 ^ e.toNat := by
      exact_mod_cast hhigh
    rw [hunit] at hfull' hlow' hhigh'
    constructor
    · rw [add_comm, zpow_add₀ (by norm_num)]
      exact le_of_mul_le_mul_right (by linarith) hscale
    · rw [abs_le]
      constructor
      · exact le_of_mul_le_mul_right (by linarith) hscale
      · exact le_of_mul_le_mul_right (by linarith) hscale

theorem powerOfTen_exact {c : Nat} (hc : c ≤ 22) :
    exact (powerOfTen c) = Extended.ofRat (10 ^ c) := by
  obtain ⟨p, hp, hnear⟩ := powerOfTen_near (show c ≤ 50 by omega)
  have hten : (10 : ℚ) ^ c = (5 ^ c : Nat) * 2 ^ (c : Int) := by
    rw [zpow_natCast, Nat.cast_pow, ← mul_pow]
    norm_num
  have hshort : 5 ^ c < 2 ^ 53 :=
    Nat.lt_of_le_of_lt (Nat.pow_le_pow_right (by decide) hc) (by decide)
  rw [hten] at hnear ⊢
  rw [hp, hnear.eq_of_short hshort]

/-! ### Products and quotients -/

/-- What is read for a whole number times a power of ten. The error is that of two roundings, and
that of one where the power is exact. -/
structure ReadAs (n : Nat) (k : Int) (v : Float) (q : ℚ) : Prop where
  read : scale? n k = some v
  value : exact v = Extended.ofRat q
  error : |q - n * 10 ^ k| ≤ n * 10 ^ k * slack
  near : -22 ≤ k → k ≤ 22 → Near (n * 10 ^ k) q

theorem readAs_scale {n : Nat} {k : Int} (hpos : 0 < n) (hn : n < 2 ^ 53) (hlow : -50 ≤ k)
    (hhigh : k ≤ 50) : ∃ v q, ReadAs n k v q := by
  obtain ⟨c, hc⟩ : ∃ c, k.natAbs = c := ⟨_, rfl⟩
  obtain ⟨p, hp, hnear⟩ := powerOfTen_near (show c ≤ 50 by omega)
  have hx := exact_toFloat hpos hn
  have hone : (1 : ℚ) ≤ n := by exact_mod_cast hpos
  have hlt : (n : ℚ) < 2 ^ 53 := by exact_mod_cast hn
  have hpos' : (0 : ℚ) < n := by exact_mod_cast hpos
  have hten : (0 : ℚ) < 10 ^ c := by positivity
  have hleast : (1 : ℚ) ≤ 10 ^ c := one_le_pow₀ (by norm_num)
  have hgreatest : (10 : ℚ) ^ c ≤ 10 ^ 50 := pow_le_pow_right₀ (by norm_num) (by omega)
  have hppos := Near.pos hten hnear
  have herror := abs_le.mp hnear.error
  -- a negative power divides and any other one multiplies, by the same rounded power
  rcases lt_or_ge k 0 with hneg | hpositive
  · obtain rfl : k = -c := by omega
    have hquotient : n / p * p = n := div_mul_cancel₀ _ hppos.ne'
    have hnormal : Normal (n / p) := by
      refine normal_of_bounds ?_ ?_
      · rw [div_mul_eq_mul_div, le_div_iff₀ hppos]
        linarith
      · rw [div_le_iff₀ hppos]
        linarith
    obtain ⟨q, hq, hqnear⟩ := exact_div_near hx hpos' hp hppos hnormal
    have hdecimal : (n * 10 ^ (-c : Int) : ℚ) = n / 10 ^ c := by
      rw [zpow_neg, zpow_natCast, div_eq_mul_inv]
    refine ⟨_, q, ?_, hq, ?_, ?_⟩
    · rw [scale?, if_pos hneg, hc, divideByPower, if_pos (by omega)]
    · rw [hdecimal]
      exact error_div hpos' hten hnear hqnear
    · intro hexact _
      rw [powerOfTen_exact (by omega), Extended.ofRat_inj] at hp
      rwa [hdecimal, hp]
  · obtain rfl : k = c := by omega
    have hnormal : Normal (n * p) := by
      have hlow : 1 * p ≤ n * p := mul_le_mul_of_nonneg_right hone hppos.le
      have hhigh : n * p ≤ 2 ^ 53 * p := mul_le_mul_of_nonneg_right hlt.le hppos.le
      refine normal_of_bounds ?_ ?_ <;> linarith
    obtain ⟨q, hq, hqnear⟩ := exact_mul_near hx hpos' hp hppos hnormal
    refine ⟨_, q, ?_, hq, ?_, ?_⟩
    · rw [scale?, if_neg (by omega), if_pos (by omega), Int.toNat_natCast]
      exact if_neg (by simp [isInf_of_exact hq])
    · rw [zpow_natCast]
      exact error_mul hpos' hten hnear hqnear
    · intro _ hexact
      rw [powerOfTen_exact (by omega), Extended.ofRat_inj] at hp
      rwa [zpow_natCast, hp]

end PathPolicy.Json
