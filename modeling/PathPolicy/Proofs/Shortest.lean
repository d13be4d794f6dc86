import PathPolicy.Decimal.Shortest
import PathPolicy.Proofs.Nearest

/-!
The search for the shortest digits ends with a decimal that lies in the interval, no further from
the center than its last place is worth. The grid before was too coarse, which bounds the digits.
-/
namespace PathPolicy.Decimal
open Float.Model

/-! ### Comparing decimal with binary -/

theorem factors_pos (k e : Int) : 0 < (factors k e).1 ∧ 0 < (factors k e).2 :=
  ⟨Nat.mul_pos (Nat.pow_pos (by decide)) (Nat.pow_pos (by decide)),
    Nat.mul_pos (Nat.pow_pos (by decide)) (Nat.pow_pos (by decide))⟩

theorem factors_eq (k e : Int) :
    ∃ c : ℚ, 0 < c ∧ ((factors k e).1 : ℚ) = 10 ^ k * c ∧ ((factors k e).2 : ℚ) = 2 ^ e * c := by
  have hsplit {b : ℚ} (hb : b ≠ 0) (j : Int) : b ^ j.toNat = b ^ j * b ^ (-j).toNat := by
    rw [← zpow_natCast, ← zpow_natCast, ← zpow_add₀ hb]
    congr 1
    omega
  refine ⟨10 ^ (-k).toNat * 2 ^ (-e).toNat, by positivity, ?_, ?_⟩
  · change ((10 ^ k.toNat * 2 ^ (-e).toNat : Nat) : ℚ) = _
    rw [Nat.cast_mul, Nat.cast_pow, Nat.cast_ofNat, hsplit (by norm_num)]
    push_cast
    ring
  · change ((2 ^ e.toNat * 10 ^ (-k).toNat : Nat) : ℚ) = _
    rw [Nat.cast_mul, Nat.cast_pow, Nat.cast_ofNat, hsplit (by norm_num)]
    push_cast
    ring

variable {m n : Nat} {k e : Int}

theorem mul_factors_le_iff :
    n * (factors k e).1 ≤ m * (factors k e).2 ↔ (n * 10 ^ k : ℚ) ≤ m * 2 ^ e := by
  obtain ⟨c, hc, ha, hb⟩ := factors_eq k e
  rw [← Nat.cast_le (α := ℚ), Nat.cast_mul, Nat.cast_mul, ha, hb, ← mul_assoc, ← mul_assoc,
    mul_le_mul_iff_left₀ hc]

theorem le_mul_factors_iff :
    m * (factors k e).2 ≤ n * (factors k e).1 ↔ (m * 2 ^ e : ℚ) ≤ n * 10 ^ k := by
  obtain ⟨c, hc, ha, hb⟩ := factors_eq k e
  rw [← Nat.cast_le (α := ℚ), Nat.cast_mul, Nat.cast_mul, ha, hb, ← mul_assoc, ← mul_assoc,
    mul_le_mul_iff_left₀ hc]

theorem mul_factors_lt_iff :
    n * (factors k e).1 < m * (factors k e).2 ↔ (n * 10 ^ k : ℚ) < m * 2 ^ e := by
  rw [← not_le, ← not_le, le_mul_factors_iff]

theorem lt_mul_factors_iff :
    m * (factors k e).2 < n * (factors k e).1 ↔ (m * 2 ^ e : ℚ) < n * 10 ^ k := by
  rw [← not_le, ← not_le, mul_factors_le_iff]

/-! ### The grid -/

def Interval.Contains (i : Interval) (q : ℚ) : Prop :=
  if i.closed then i.low * 2 ^ i.exponent ≤ q ∧ q ≤ i.high * 2 ^ i.exponent
  else i.low * 2 ^ i.exponent < q ∧ q < i.high * 2 ^ i.exponent

variable {i : Interval}

theorem Interval.Contains.bounds {q : ℚ} (h : i.Contains q) :
    i.low * 2 ^ i.exponent ≤ q ∧ q ≤ i.high * 2 ^ i.exponent := by
  rw [Interval.Contains] at h
  split at h
  · exact h
  · exact ⟨h.1.le, h.2.le⟩

theorem Interval.mem_iff : i.mem n k ↔ i.Contains (n * 10 ^ k) := by
  rw [Contains, ← le_mul_factors_iff, ← mul_factors_le_iff, ← lt_mul_factors_iff,
    ← mul_factors_lt_iff]
  unfold mem
  dsimp only
  split <;> rw [Bool.and_eq_true, decide_eq_true_eq, decide_eq_true_eq]

def Interval.below (i : Interval) (k : Int) : Nat :=
  i.center * (factors k i.exponent).2 / (factors k i.exponent).1

theorem Interval.below_le : (i.below k * 10 ^ k : ℚ) ≤ i.center * 2 ^ i.exponent :=
  mul_factors_le_iff.mp (Nat.div_mul_le_self _ _)

theorem Interval.lt_above : (i.center * 2 ^ i.exponent : ℚ) < (i.below k + 1) * 10 ^ k := by
  have hlt := Nat.lt_mul_div_succ (i.center * (factors k i.exponent).2) (factors_pos k i.exponent).1
  rw [Nat.mul_comm (factors k i.exponent).1] at hlt
  exact_mod_cast lt_mul_factors_iff.mp hlt

theorem Interval.onGrid_cases (h : i.onGrid? k = some n) :
    i.mem n k ∧ (n = i.below k ∨ n = i.below k + 1) := by
  unfold onGrid? at h
  dsimp only at h
  split at h
  · cases h
  · cases h
    exact ⟨by assumption, .inl rfl⟩
  · cases h
    exact ⟨by assumption, .inr rfl⟩
  · rename_i hbelow habove
    split at h
    · cases h
      exact ⟨hbelow, .inl rfl⟩
    split at h
    · cases h
      exact ⟨habove, .inr rfl⟩
    · cases h
      split
      · exact ⟨hbelow, .inl rfl⟩
      · exact ⟨habove, .inr rfl⟩

theorem Interval.abs_onGrid_sub_le (h : i.onGrid? k = some n) :
    |(n * 10 ^ k : ℚ) - i.center * 2 ^ i.exponent| ≤ 10 ^ k := by
  have hbelow := i.below_le (k := k)
  have habove := i.lt_above (k := k)
  rw [abs_le]
  rcases (onGrid_cases h).2 with rfl | rfl
  · constructor <;> linarith
  · push_cast
    constructor <;> linarith

/-- How far the interval reaches beyond its center. -/
def Interval.reach (i : Interval) : ℚ := i.high * 2 ^ i.exponent - i.center * 2 ^ i.exponent

theorem Interval.reach_le (hlow : i.low ≤ i.center) (h : i.onGrid? k = none) : i.reach ≤ 10 ^ k := by
  have hmem : i.mem (i.below k + 1) k = false := by
    unfold onGrid? at h
    dsimp only at h
    split at h
    · assumption
    · cases h
    · cases h
    · split at h
      · cases h
      split at h <;> cases h
  have hbelow := i.below_le (k := k)
  have habove := i.lt_above (k := k)
  have hpow : (0 : ℚ) < 2 ^ i.exponent := zpow_pos (by norm_num) _
  have hcenter : (i.low * 2 ^ i.exponent : ℚ) ≤ i.center * 2 ^ i.exponent :=
    mul_le_mul_of_nonneg_right (by exact_mod_cast hlow) hpow.le
  rw [← Bool.not_eq_true, mem_iff, Contains] at hmem
  push_cast at hmem
  rw [reach]
  by_contra hfine
  apply hmem
  split
  · constructor <;> linarith
  · constructor <;> linarith

/-! ### The search -/

theorem Interval.search_spec (hlow : i.low ≤ i.center) (steps : Nat)
    (hstart : i.reach ≤ 10 ^ (k + 1)) (hend : 10 ^ (k + 1 - steps) < i.reach) :
    i.onGrid? (i.search steps k).exponent = some (i.search steps k).digits ∧
      i.reach ≤ 10 ^ ((i.search steps k).exponent + 1) := by
  induction steps generalizing k with
  | zero =>
    rw [Nat.cast_zero, sub_zero] at hend
    exact absurd hstart hend.not_ge
  | succ steps ih =>
    rw [search]
    split
    next digits hgrid => exact ⟨hgrid, hstart⟩
    next hgrid =>
      refine ih ?_ ?_
      · rw [sub_add_cancel]
        exact reach_le hlow hgrid
      · rwa [show k - 1 + 1 - steps = k + 1 - (steps + 1 : Nat) by push_cast; ring]

theorem Interval.pos_of_mem (hlow : 0 < i.low) (h : i.mem n k) : 0 < n := by
  have hbound := (mem_iff.mp h).bounds.1
  have hpos : (0 : ℚ) < i.low * 2 ^ i.exponent :=
    mul_pos (by exact_mod_cast hlow) (zpow_pos (by norm_num) _)
  rw [Nat.pos_iff_ne_zero]
  rintro rfl
  rw [Nat.cast_zero, zero_mul] at hbound
  exact absurd hpos hbound.not_gt

theorem Interval.pos_digits_search (hlow : 0 < i.low) (hcenter : 0 < i.center) (steps : Nat)
    (k : Int) : 0 < (i.search steps k).digits := by
  induction steps generalizing k with
  | zero => exact hcenter
  | succ steps ih =>
    rw [search]
    split
    next digits hgrid => exact pos_of_mem hlow (onGrid_cases hgrid).1
    next => exact ih (k - 1)

theorem pos_digits_shortest (format : Format) (hm : 0 < m) (e : Int) :
    0 < (shortest format m e).digits := by
  refine Interval.pos_digits_search ?_ ?_ _ _
  · simp only [Interval.around]
    split <;> omega
  · simp only [Interval.around]
    omega

/-! ### The shortest digits of a single-precision number -/

/-- Where the search starts, by the number of binary places before the point. -/
def startOf (places : Int) : Int := places * 30103 / 100000 + 2

theorem startOf_bounds (places : Int) (hlow : -149 ≤ places) (hhigh : places ≤ 128) :
    (2 : ℚ) ^ places ≤ 10 ^ (startOf places + 1) ∧
      (10 : ℚ) ^ (startOf places + 1 - (24 : Nat)) < 2 ^ (places - 25) := by
  have hall : ∀ places : Int, -149 ≤ places → places ≤ 128 →
      1 * (factors (startOf places + 1) places).2 ≤ 1 * (factors (startOf places + 1) places).1 ∧
        1 * (factors (startOf places + 1 - (24 : Nat)) (places - 25)).1
          < 1 * (factors (startOf places + 1 - (24 : Nat)) (places - 25)).2 := by decide +kernel
  obtain ⟨hstart, hend⟩ := hall places hlow hhigh
  rw [le_mul_factors_iff, Nat.cast_one, one_mul, one_mul] at hstart
  rw [mul_factors_lt_iff, Nat.cast_one, one_mul, one_mul] at hend
  exact ⟨hstart, hend⟩

theorem quarters (e : Int) :
    (2 : ℚ) ^ (e - 1) = 2 * 2 ^ (e - 2) ∧ (2 : ℚ) ^ e = 4 * 2 ^ (e - 2) := by
  constructor
  · rw [show e - 1 = e - 2 + 1 by ring, zpow_add_one₀ (by norm_num), mul_comm]
  · rw [zpow_sub₀ (by norm_num)]
    ring

theorem reach_around (format : Format) (m : Nat) (e : Int) :
    (Interval.around format m e).reach = 2 ^ (e - 1) := by
  rw [Interval.reach, Interval.around, (quarters e).1]
  push_cast
  ring

theorem low_around_le (format : Format) (m : Nat) (e : Int) :
    (Interval.around format m e).low ≤ (Interval.around format m e).center := by
  rw [Interval.around]
  exact Nat.sub_le _ _

/-- What the search is known to have found. -/
structure Shortest (m : Nat) (e : Int) (x : Scaled) : Prop where
  contains : (Interval.around .binary32 m e).Contains (x.digits * 10 ^ x.exponent)
  close : |(x.digits * 10 ^ x.exponent : ℚ) - m * 2 ^ e| ≤ 10 ^ x.exponent
  fine : (2 : ℚ) ^ (e - 1) ≤ 10 ^ (x.exponent + 1)

theorem shortest_spec (hm : 0 < m) (hrep : Representable .binary32 m e) (he : e ≤ 104) :
    Shortest m e (shortest .binary32 m e) := by
  have hlt : m < 2 ^ 24 := hrep.lt
  have hleast : -149 ≤ e := hrep.least_le
  have hlog : m.log2 < 24 := (Nat.log2_lt hm.ne').mpr hlt
  obtain ⟨hstart, hend⟩ := startOf_bounds (totalExponent m e)
    (by rw [totalExponent]; omega) (by rw [totalExponent]; omega)
  have hreach := reach_around .binary32 m e
  obtain ⟨hgrid, hfine⟩ := Interval.search_spec (low_around_le .binary32 m e) 24
    (k := startOf (totalExponent m e))
    (by
      rw [hreach]
      refine le_trans (zpow_le_zpow_right₀ (by norm_num) ?_) hstart
      rw [totalExponent]
      omega)
    (by
      rw [hreach]
      refine lt_of_lt_of_le hend (zpow_le_zpow_right₀ (by norm_num) ?_)
      rw [totalExponent]
      omega)
  refine ⟨Interval.mem_iff.mp ((Interval.onGrid_cases hgrid).1), ?_, hreach ▸ hfine⟩
  have hclose := Interval.abs_onGrid_sub_le hgrid
  have hcenter : ((Interval.around .binary32 m e).center : ℚ)
      * 2 ^ (Interval.around .binary32 m e).exponent = m * 2 ^ e := by
    rw [Interval.around, (quarters e).2]
    push_cast
    ring
  rwa [hcenter] at hclose

variable {x : Scaled}

theorem Shortest.le (h : Shortest m e x) :
    (x.digits * 10 ^ x.exponent : ℚ) ≤ (2 * m + 1) * 2 ^ (e - 1) := by
  refine h.contains.bounds.2.trans (le_of_eq ?_)
  change ((4 * m + 2 : Nat) * 2 ^ (e - 2) : ℚ) = _
  rw [(quarters e).1]
  push_cast
  ring

theorem Shortest.digits_lt (h : Shortest m e x) (hm : m < 2 ^ 24) : x.digits < 2 ^ 29 := by
  have hpow : (0 : ℚ) < 10 ^ x.exponent := zpow_pos (by norm_num) _
  have hdigits : (x.digits : ℚ) ≤ (10 * (2 * m + 1) : Nat) := by
    refine le_of_mul_le_mul_right ?_ hpow
    calc
      (x.digits * 10 ^ x.exponent : ℚ) ≤ (2 * m + 1) * 2 ^ (e - 1) := h.le
      _ ≤ (2 * m + 1) * 10 ^ (x.exponent + 1) := mul_le_mul_of_nonneg_left h.fine (by positivity)
      _ = (10 * (2 * m + 1) : Nat) * 10 ^ x.exponent := by
        rw [zpow_add_one₀ (by norm_num)]
        push_cast
        ring
  have hdigits' : x.digits ≤ 10 * (2 * m + 1) := by exact_mod_cast hdigits
  omega

theorem Shortest.le_exponent (h : Shortest m e x) (he : -149 ≤ e) : -46 ≤ x.exponent := by
  have hlt : (10 : ℚ) ^ (-46 : Int) < 10 ^ (x.exponent + 1) := by
    calc
      (10 : ℚ) ^ (-46 : Int) < 2 ^ (-150 : Int) := by norm_num
      _ ≤ 2 ^ (e - 1) := zpow_le_zpow_right₀ (by norm_num) (by omega)
      _ ≤ 10 ^ (x.exponent + 1) := h.fine
  have := (zpow_lt_zpow_iff_right₀ (by norm_num)).mp hlt
  omega

theorem Shortest.exponent_le (h : Shortest m e x) (hx : 0 < x.digits) (hm : m < 2 ^ 24)
    (he : e ≤ 104) : x.exponent ≤ 38 := by
  have hone : (1 : ℚ) ≤ x.digits := by exact_mod_cast hx
  have hm' : (2 * m + 1 : ℚ) ≤ 2 ^ 25 := by exact_mod_cast (by omega : 2 * m + 1 ≤ 2 ^ 25)
  have hlt : (10 : ℚ) ^ x.exponent < 10 ^ (39 : Int) := by
    calc
      (10 : ℚ) ^ x.exponent ≤ x.digits * 10 ^ x.exponent :=
        le_mul_of_one_le_left (zpow_pos (by norm_num) _).le hone
      _ ≤ (2 * m + 1) * 2 ^ (e - 1) := h.le
      _ ≤ 2 ^ 25 * 2 ^ (103 : Int) :=
        mul_le_mul hm' (zpow_le_zpow_right₀ (by norm_num) (by omega))
          (zpow_pos (by norm_num) _).le (by norm_num)
      _ < 10 ^ (39 : Int) := by norm_num
  have := (zpow_lt_zpow_iff_right₀ (by norm_num)).mp hlt
  omega

end PathPolicy.Decimal
