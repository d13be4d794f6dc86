import PathPolicy.Proofs.Json.Scale
import PathPolicy.Proofs.Narrow
import PathPolicy.Proofs.Separation

/-!
The shortest decimal of a single-precision number is read, in double precision, as a number of the
same interval. What is read is as far from the decimal as two roundings may be, and that does not
take it past a midpoint, for no decimal comes that near to one, except for three that are read on
the right side.
-/
namespace PathPolicy.Json
open Decimal Double Float.Model

/-! ### Decimals that are midpoints -/

theorem pow_le_of_dvd_mul_two_pow {n c d : Nat} (hn : 0 < n) (h : 5 ^ c ∣ n * 2 ^ d) : 5 ^ c ≤ n :=
  Nat.le_of_dvd hn ((Nat.Coprime.pow c d (by decide)).dvd_of_dvd_mul_right h)

theorem five_pow_dvd {c : Nat} (hc : 23 ≤ c) : 5 ^ 23 ∣ 10 ^ c :=
  (pow_dvd_pow_of_dvd (by decide) 23).trans (pow_dvd_pow 10 hc)

theorem exponent_of_eq {n m : Nat} {k j : Int} (hn : 0 < n) (hn' : n < 2 ^ 53) (hm : 0 < m)
    (hm' : m < 2 ^ bits) (h : (n * 10 ^ k : ℚ) = m * 2 ^ j) : -22 ≤ k ∧ k ≤ 22 := by
  have hfactors : n * (factors k j).1 = m * (factors k j).2 :=
    le_antisymm (mul_factors_le_iff.mpr h.le) (le_mul_factors_iff.mpr h.ge)
  change n * (10 ^ k.toNat * 2 ^ (-j).toNat) = m * (2 ^ j.toNat * 10 ^ (-k).toNat) at hfactors
  have hlarge : 2 ^ 53 < 5 ^ 23 := by decide
  rw [bits] at hm'
  constructor
  · by_contra hk
    rw [show k.toNat = 0 by omega, Nat.pow_zero, Nat.one_mul] at hfactors
    have hdvd : 5 ^ 23 ∣ n * 2 ^ (-j).toNat := by
      rw [hfactors]
      exact ((five_pow_dvd (by omega)).mul_left _).mul_left _
    have := pow_le_of_dvd_mul_two_pow hn hdvd
    omega
  · by_contra hk
    rw [show (-k).toNat = 0 by omega, Nat.pow_zero, Nat.mul_one] at hfactors
    have hdvd : 5 ^ 23 ∣ m * 2 ^ j.toNat := by
      rw [← hfactors]
      exact ((five_pow_dvd (by omega)).mul_right _).mul_left _
    have := pow_le_of_dvd_mul_two_pow hm hdvd
    omega

/-! ### Decimals near midpoints -/

def SameSide (p q b : ℚ) : Prop := (p < b ↔ q < b) ∧ (b < p ↔ b < q)

theorem SameSide.below {p q b : ℚ} (hp : p < b) (hq : q < b) : SameSide p q b :=
  ⟨iff_of_true hp hq, iff_of_false hp.not_gt hq.not_gt⟩

theorem SameSide.above {p q b : ℚ} (hp : b < p) (hq : b < q) : SameSide p q b :=
  ⟨iff_of_false hp.not_gt hq.not_gt, iff_of_true hp hq⟩

def onSameSide (x : Scaled) (m : Nat) (j : Int) : Bool :=
  match scale? x.digits x.exponent with
  | none => false
  | some v =>
    match v.toModel.unpack with
    | .finite .positive w t _ =>
      let (a, b) := factors x.exponent j
      t ≤ j && (x.digits * a < m * b && w < m * 2 ^ (j - t).toNat ||
        m * b < x.digits * a && m * 2 ^ (j - t).toNat < w)
    | _ => false

theorem sameSide_miss {x : Scaled} {m : Nat} {j : Int} {v : Float} {q : ℚ}
    (hmiss : (x, m, j) ∈ misses) (hread : ReadAs x.digits x.exponent v q) :
    SameSide (x.digits * 10 ^ x.exponent) q (m * 2 ^ j) := by
  have hall : ∀ miss ∈ misses, onSameSide miss.1 miss.2.1 miss.2.2 := by decide +kernel
  have hside := hall _ hmiss
  have hq := hread.value
  rw [onSameSide, hread.read] at hside
  dsimp only at hside
  split at hside
  case h_2 => cases hside
  case h_1 w t h hu =>
    rw [exact, hu, exactOf_positive, Extended.ofRat_inj] at hq
    subst hq
    simp only [Bool.and_eq_true, Bool.or_eq_true, decide_eq_true_eq] at hside
    obtain ⟨htj, hsides⟩ := hside
    have hpow : (0 : ℚ) < 2 ^ t := zpow_pos (by norm_num) t
    have hbinary : (m * 2 ^ j : ℚ) = (m * 2 ^ (j - t).toNat : Nat) * 2 ^ t := by
      push_cast
      rw [mul_assoc, ← zpow_natCast, ← zpow_add₀ (by norm_num)]
      congr 2
      omega
    rcases hsides with ⟨hdecimal, hread⟩ | ⟨hdecimal, hread⟩
    · refine .below (mul_factors_lt_iff.mp hdecimal) ?_
      rw [hbinary, mul_lt_mul_iff_left₀ hpow]
      exact_mod_cast hread
    · refine .above (lt_mul_factors_iff.mp hdecimal) ?_
      rw [hbinary, mul_lt_mul_iff_left₀ hpow]
      exact_mod_cast hread

/-- A binary number of 25 bits, no nearer to the center than its last place is worth. -/
def Midpoint (center b : ℚ) : Prop :=
  ∃ (m : Nat) (j : Int), b = m * 2 ^ j ∧ 0 < m ∧ m < 2 ^ bits ∧ -150 ≤ j ∧ j ≤ 103 ∧
    2 ^ j ≤ |b - center|

theorem coarsest_le_of_near {d center : ℚ} {m : Nat} {k j : Int} (hlow : -150 ≤ j) (hhigh : j ≤ 103)
    (hm : m < 2 ^ bits) (hclose : |d - center| ≤ 10 ^ k) (hgap : 2 ^ j ≤ |m * 2 ^ j - center|)
    (hnear : |m * 2 ^ j - d| ≤ d * slack) : coarsest j ≤ k := by
  have hpow : (0 : ℚ) < 2 ^ j := zpow_pos (by norm_num) j
  have hm' : (m * 2 ^ j : ℚ) ≤ 2 ^ 25 * 2 ^ j :=
    mul_le_mul_of_nonneg_right (by exact_mod_cast hm.le) hpow.le
  have htriangle := abs_sub_le (m * 2 ^ j : ℚ) d center
  have hbounds := abs_le.mp hnear
  rw [slack] at hbounds hnear
  refine coarsest_le hlow hhigh ?_
  linarith

theorem sameSide_of_midpoint {x : Scaled} {v : Float} {q b center : ℚ} (hb : Midpoint center b)
    (hx : 0 < x.digits) (hx' : x.digits < 2 ^ 53)
    (hclose : |x.digits * 10 ^ x.exponent - center| ≤ 10 ^ x.exponent)
    (hread : ReadAs x.digits x.exponent v q) : SameSide (x.digits * 10 ^ x.exponent) q b := by
  obtain ⟨m, j, rfl, hm, hm', hlow, hhigh, hgap⟩ := hb
  by_cases heq : (x.digits * 10 ^ x.exponent : ℚ) = m * 2 ^ j
  · obtain ⟨hk, hk'⟩ := exponent_of_eq hx hx' hm hm' heq
    have hnear := hread.near hk hk'
    rw [heq] at hnear ⊢
    rw [hnear.eq_of_short (hm'.trans (by decide))]
    exact ⟨Iff.rfl, Iff.rfl⟩
  by_cases hnear : |(m * 2 ^ j : ℚ) - x.digits * 10 ^ x.exponent|
      ≤ x.digits * 10 ^ x.exponent * slack
  · have hk := coarsest_le_of_near hlow hhigh hm' hclose hgap hnear
    exact sameSide_miss ((eq_or_miss hlow hhigh hm hm' hk hnear).resolve_left heq) hread
  · -- the midpoint is further away than the error
    rw [not_le] at hnear
    have hbounds := abs_le.mp hread.error
    rcases lt_or_gt_of_ne heq with hlt | hgt
    · rw [abs_of_pos (sub_pos.mpr hlt)] at hnear
      exact .below hlt (by linarith)
    · rw [abs_of_neg (sub_neg.mpr hgt)] at hnear
      exact .above hgt (by linarith)

theorem contains_of_sameSide {i : Interval} {p q : ℚ} (h : i.Contains p)
    (hlow : SameSide p q (i.low * 2 ^ i.exponent)) (hhigh : SameSide p q (i.high * 2 ^ i.exponent)) :
    i.Contains q := by
  rw [Interval.Contains] at h ⊢
  split at h
  · rw [if_pos (by assumption), ← not_lt, ← not_lt, ← hlow.1, ← hhigh.2, not_lt, not_lt]
    exact h
  · rw [if_neg (by assumption), ← hlow.2, ← hhigh.1]
    exact h

/-! ### The interval of a number -/

variable {m : Nat} {e : Int}

theorem midpoint_high (hrep : Representable .binary32 m e) (he : e ≤ 104) :
    Midpoint (m * 2 ^ e) ((Interval.around .binary32 m e).high
      * 2 ^ (Interval.around .binary32 m e).exponent) := by
  have hlt : m < 2 ^ 24 := hrep.lt
  have hleast : -149 ≤ e := hrep.least_le
  obtain ⟨hhalf, hwhole⟩ := quarters e
  refine ⟨2 * m + 1, e - 1, ?_, by omega, by rw [bits]; omega, by omega, by omega, ?_⟩
  · change ((4 * m + 2 : Nat) * 2 ^ (e - 2) : ℚ) = _
    rw [hhalf]
    push_cast
    ring
  · change (2 : ℚ) ^ (e - 1) ≤ |((4 * m + 2 : Nat) : ℚ) * 2 ^ (e - 2) - m * 2 ^ e|
    rw [hhalf, hwhole]
    refine le_trans (le_of_eq ?_) (le_abs_self _)
    push_cast
    ring

theorem midpoint_low (hm : 0 < m) (hrep : Representable .binary32 m e) (he : e ≤ 104) :
    Midpoint (m * 2 ^ e) ((Interval.around .binary32 m e).low
      * 2 ^ (Interval.around .binary32 m e).exponent) := by
  have hlt : m < 2 ^ 24 := hrep.lt
  have hleast : -149 ≤ e := hrep.least_le
  obtain ⟨hhalf, hwhole⟩ := quarters e
  have hexponent : (Interval.around .binary32 m e).exponent = e - 2 := rfl
  rw [low_around, hexponent]
  split
  next hpower =>
    obtain ⟨rfl, hlowest⟩ := hpower
    refine ⟨4 * 2 ^ 23 - 1, e - 2, rfl, by omega, by rw [bits]; omega, by omega, by omega, ?_⟩
    rw [hwhole, abs_sub_comm]
    refine le_trans (le_of_eq ?_) (le_abs_self _)
    norm_num
    ring
  next =>
    refine ⟨2 * m - 1, e - 1, ?_, by omega, by rw [bits]; omega, by omega, by omega, ?_⟩
    · rw [hhalf, show 4 * m - 2 = 2 * (2 * m - 1) by omega]
      push_cast
      ring
    · rw [hwhole, hhalf, abs_sub_comm]
      refine le_trans (le_of_eq ?_) (le_abs_self _)
      rw [Nat.cast_sub (by omega)]
      push_cast
      ring

/-- The shortest decimal of a number, read in double precision, lies in the number's interval. -/
theorem contains_of_readAs {x : Scaled} {v : Float} {q : ℚ} (hm : 0 < m)
    (hrep : Representable .binary32 m e) (he : e ≤ 104) (hx : 0 < x.digits) (h : Shortest m e x)
    (hread : ReadAs x.digits x.exponent v q) : (Interval.around .binary32 m e).Contains q := by
  have hdigits : x.digits < 2 ^ 53 := (h.digits_lt hrep.lt).trans (by decide)
  exact contains_of_sameSide h.contains
    (sameSide_of_midpoint (midpoint_low hm hrep he) hx hdigits h.close hread)
    (sameSide_of_midpoint (midpoint_high hrep he) hx hdigits h.close hread)

end PathPolicy.Json
