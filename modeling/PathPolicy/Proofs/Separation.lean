import PathPolicy.Proofs.Near
import PathPolicy.Proofs.Shortest

/-!
Where decimals come near the midpoints between floating-point numbers. A fraction between two
neighbouring ones has no smaller denominator than both of theirs together. So three neighbours
around the quotient of a power of two and a power of ten leave a single quotient of a decimal's
digits and a significand that can come very close to it.
-/
namespace PathPolicy.Decimal
open Double (slack)

/-! ### Neighbouring fractions -/

structure Ratio where
  num : Nat
  den : Nat

theorem add_le_of_between {l r : Ratio} {n m : Nat} (hunit : r.num * l.den = l.num * r.den + 1)
    (hlow : l.num * m < n * l.den) (hhigh : n * r.den < r.num * m) : l.den + r.den ≤ m := by
  have hleft : (l.num * m + 1) * r.den ≤ n * l.den * r.den := Nat.mul_le_mul_right _ hlow
  have hright : (n * r.den + 1) * l.den ≤ r.num * m * l.den := Nat.mul_le_mul_right _ hhigh
  have hmiddle : r.num * m * l.den = (l.num * r.den + 1) * m := by
    rw [← hunit]
    ring
  linarith

/-- Applies a function to a number that is computed before, not wherever the function uses it. -/
def strict {α : Type} (n : Nat) (f : Nat → α) : α :=
  match n with
  | 0 => f 0
  | n + 1 => f (n + 1)

/-- Approaches `num / den` from both sides by fractions whose denominators are below the limit. -/
def approach (limit num den : Nat) : Nat → Ratio → Ratio → Ratio × Ratio
  | 0, l, r => (l, r)
  | n + 1, l, r =>
    if limit ≤ l.den + r.den then (l, r)
    else
      strict (r.num * den - num * r.den) fun gap =>
      strict (min ((num * l.den - l.num * den) / gap) ((limit - 1 - l.den) / r.den)) fun steps =>
      strict (l.num + steps * r.num) fun lnum =>
      strict (l.den + steps * r.den) fun lden =>
      strict (min ((gap - 1) / (num * lden - lnum * den)) ((limit - 1 - r.den) / lden)) fun steps =>
      strict (r.num + steps * lnum) fun rnum =>
      strict (r.den + steps * lden) fun rden =>
      approach limit num den n ⟨lnum, lden⟩ ⟨rnum, rden⟩

def following (limit : Nat) (l r : Ratio) : Ratio :=
  let steps := (limit - 1 + l.den) / r.den
  ⟨steps * r.num - l.num, steps * r.den - l.den⟩

/-! ### Nearly the same -/

/-- They differ by no more than the error of two roundings. -/
def NearlyEqual (x y : Nat) : Prop :=
  x * (2 ^ 92 - (2 ^ 40 + 1)) ≤ y * 2 ^ 92 ∧ y * 2 ^ 92 ≤ x * (2 ^ 92 + (2 ^ 40 + 1))

instance (x y : Nat) : Decidable (NearlyEqual x y) := inferInstanceAs (Decidable (_ ∧ _))

theorem nearlyEqual_iff {x y : Nat} : NearlyEqual x y ↔ |(y : ℚ) - x| ≤ x * slack := by
  rw [NearlyEqual, ← Nat.cast_le (α := ℚ), ← Nat.cast_le (α := ℚ), abs_le, slack]
  push_cast
  constructor
  · rintro ⟨h, h'⟩
    constructor <;> linarith
  · rintro ⟨h, h'⟩
    constructor <;> linarith

theorem nearlyEqual_mul_iff {x y c : Nat} (hc : 0 < c) :
    NearlyEqual (x * c) (y * c) ↔ NearlyEqual x y := by
  rw [NearlyEqual, NearlyEqual, Nat.mul_right_comm x c (2 ^ 92 - _),
    Nat.mul_right_comm x c (2 ^ 92 + _), Nat.mul_right_comm y, Nat.mul_le_mul_right_iff hc,
    Nat.mul_le_mul_right_iff hc]

def bits : Nat := 25

/-- Everything that is nearly `b / a` lies between the first and the last of three neighbours. -/
def Encloses (a b : Nat) (l c r : Ratio) : Prop :=
  c.num * l.den = l.num * c.den + 1 ∧ 2 ^ bits ≤ l.den + c.den ∧
  r.num * c.den = c.num * r.den + 1 ∧ 2 ^ bits ≤ c.den + r.den ∧
  l.num * a * (2 ^ 92 + (2 ^ 40 + 1)) < b * l.den * 2 ^ 92 ∧
  b * r.den * 2 ^ 92 < r.num * a * (2 ^ 92 - (2 ^ 40 + 1))

instance (a b : Nat) (l c r : Ratio) : Decidable (Encloses a b l c r) :=
  inferInstanceAs (Decidable (_ ∧ _ ∧ _ ∧ _ ∧ _ ∧ _))

theorem Encloses.eq {a b n m : Nat} {l c r : Ratio} (h : Encloses a b l c r) (hpos : 0 < m)
    (hm : m < 2 ^ bits) (hnear : NearlyEqual (n * a) (m * b)) : n * c.den = c.num * m := by
  obtain ⟨hleft, hleftBits, hright, hrightBits, hlow, hhigh⟩ := h
  obtain ⟨hbelow, habove⟩ := hnear
  have hfirst : l.num * m < n * l.den := by
    refine Nat.lt_of_mul_lt_mul_right (a := a * (2 ^ 92 + (2 ^ 40 + 1))) ?_
    calc
      l.num * m * (a * (2 ^ 92 + (2 ^ 40 + 1))) = l.num * a * (2 ^ 92 + (2 ^ 40 + 1)) * m := by ring
      _ < b * l.den * 2 ^ 92 * m := Nat.mul_lt_mul_of_pos_right hlow hpos
      _ = m * b * 2 ^ 92 * l.den := by ring
      _ ≤ n * a * (2 ^ 92 + (2 ^ 40 + 1)) * l.den := Nat.mul_le_mul_right _ habove
      _ = n * l.den * (a * (2 ^ 92 + (2 ^ 40 + 1))) := by ring
  have hlast : n * r.den < r.num * m := by
    refine Nat.lt_of_mul_lt_mul_right (a := a * (2 ^ 92 - (2 ^ 40 + 1))) ?_
    calc
      n * r.den * (a * (2 ^ 92 - (2 ^ 40 + 1))) = n * a * (2 ^ 92 - (2 ^ 40 + 1)) * r.den := by ring
      _ ≤ m * b * 2 ^ 92 * r.den := Nat.mul_le_mul_right _ hbelow
      _ = b * r.den * 2 ^ 92 * m := by ring
      _ < r.num * a * (2 ^ 92 - (2 ^ 40 + 1)) * m := Nat.mul_lt_mul_of_pos_right hhigh hpos
      _ = r.num * m * (a * (2 ^ 92 - (2 ^ 40 + 1))) := by ring
  rcases Nat.lt_trichotomy (n * c.den) (c.num * m) with hlt | heq | hgt
  · have := add_le_of_between hleft hfirst hlt
    omega
  · exact heq
  · have := add_le_of_between hright hgt hlast
    omega

/-! ### Every exponent -/

def coarsest (j : Int) : Int := -(-j * 30103 / 100000)

/-- The decimals that nearly are numbers of 25 bits, and those numbers. -/
def misses : List (Scaled × Nat × Int) :=
  [(⟨7038531, -32⟩, 22841339, -108), (⟨14077062, -32⟩, 22841339, -107),
    (⟨25645849, -15⟩, 28874659, -50)]

/-- Of three neighbours the one in the middle is the quotient itself, or not near it, or known. -/
def Settles (j : Int) (a b : Nat) (l c r : Ratio) : Prop :=
  Encloses a b l c r ∧ (c.num * a = c.den * b ∨ ¬NearlyEqual (c.num * a) (c.den * b) ∨
    (⟨c.num, coarsest j⟩, c.den, j) ∈ misses)

instance (j : Int) (a b : Nat) (l c r : Ratio) : Decidable (Settles j a b l c r) :=
  inferInstanceAs (Decidable (_ ∧ (_ ∨ _ ∨ _)))

def settled (j : Int) (a b : Nat) : Ratio × Ratio → Bool
  | (l, c) => Settles j a b l c (following (2 ^ bits) l c)

theorem exists_of_settled {j : Int} {a b : Nat} {found : Ratio × Ratio}
    (h : settled j a b found) : ∃ l c r, Settles j a b l c r := by
  obtain ⟨l, c⟩ := found
  exact ⟨l, c, _, of_decide_eq_true h⟩

def neighbours (a b : Nat) : Ratio × Ratio :=
  approach (2 ^ bits) (b * 2 ^ 92) (a * (2 ^ 92 + (2 ^ 40 + 1))) 40 ⟨0, 1⟩ ⟨1, 1⟩

def settledAt (j : Int) : Bool :=
  settled j (factors (coarsest j) j).1 (factors (coarsest j) j).2
    (neighbours (factors (coarsest j) j).1 (factors (coarsest j) j).2)

theorem exists_settles {j : Int} (hlow : -150 ≤ j) (hhigh : j ≤ 103) :
    ∃ l c r, Settles j (factors (coarsest j) j).1 (factors (coarsest j) j).2 l c r := by
  have hall : ∀ j : Int, -150 ≤ j → j ≤ 103 → settledAt j := by decide +kernel
  exact exists_of_settled (hall j hlow hhigh)

theorem coarsest_le {j k : Int} (hlow : -150 ≤ j) (hhigh : j ≤ 103)
    (h : (2 : ℚ) ^ j * (1 - 1 / 2 ^ 24) ≤ 10 ^ k) : coarsest j ≤ k := by
  have hall : ∀ j : Int, -150 ≤ j → j ≤ 103 →
      2 ^ 24 * (factors (coarsest j - 1) j).1 < (2 ^ 24 - 1) * (factors (coarsest j - 1) j).2 := by
    decide +kernel
  have hfiner := mul_factors_lt_iff.mp (hall j hlow hhigh)
  push_cast at hfiner
  have hlt : (10 : ℚ) ^ (coarsest j - 1) < 10 ^ k := by linarith
  have := (zpow_lt_zpow_iff_right₀ (by norm_num)).mp hlt
  omega

theorem miss_of_eq {n m d c : Nat} {x : Scaled} {j : Int} (hmiss : (x, c, j) ∈ misses)
    (hpos : 0 < m) (hm : m < 2 ^ bits) (h : n * 10 ^ d * c = x.digits * m) :
    (⟨n, x.exponent + d⟩, m, j) ∈ misses := by
  have hall : ∀ miss ∈ misses, Nat.Coprime miss.2.1 miss.1.digits ∧ 2 ^ bits ≤ 2 * miss.2.1 ∧
      miss.1.digits % 10 ≠ 0 := by decide +kernel
  obtain ⟨hcoprime, hlarge, hlast⟩ := hall _ hmiss
  dsimp only at hcoprime hlarge hlast
  have hmc : m = c := by
    obtain ⟨t, rfl⟩ := hcoprime.dvd_of_dvd_mul_left (Dvd.intro_left _ h)
    have ht : t < 2 := Nat.lt_of_mul_lt_mul_left (a := c) (by omega)
    obtain rfl : t = 1 := by
      have := Nat.pos_of_mul_pos_left hpos
      omega
    exact Nat.mul_one c
  subst hmc
  have hn := Nat.eq_of_mul_eq_mul_right hpos h
  cases d with
  | zero =>
    rw [Nat.pow_zero, Nat.mul_one] at hn
    rwa [hn, Nat.cast_zero, add_zero]
  | succ d =>
    rw [Nat.pow_succ, ← Nat.mul_assoc] at hn
    omega

/-- A decimal that is as near to a number of 25 bits as the error of two roundings is that number,
or one of the misses. -/
theorem eq_or_miss {n m : Nat} {k j : Int} (hlow : -150 ≤ j) (hhigh : j ≤ 103) (hpos : 0 < m)
    (hm : m < 2 ^ bits) (hk : coarsest j ≤ k)
    (hnear : |(m * 2 ^ j : ℚ) - n * 10 ^ k| ≤ n * 10 ^ k * slack) :
    (n * 10 ^ k : ℚ) = m * 2 ^ j ∨ (⟨n, k⟩, m, j) ∈ misses := by
  obtain ⟨d, rfl⟩ := Int.le.dest hk
  obtain ⟨scale, hscale, ha, hb⟩ := factors_eq (coarsest j) j
  obtain ⟨l, c, r, hencloses, hmiddle⟩ := exists_settles hlow hhigh
  generalize (factors (coarsest j) j).1 = a at ha hencloses hmiddle
  generalize (factors (coarsest j) j).2 = b at hb hencloses hmiddle
  have hdigits : (n * 10 ^ (coarsest j + d) : ℚ) = (n * 10 ^ d : Nat) * 10 ^ coarsest j := by
    rw [zpow_add₀ (by norm_num), zpow_natCast]
    push_cast
    ring
  -- between whole numbers, so that the search over quotients applies
  have hscaled : NearlyEqual (n * 10 ^ d * a) (m * b) := by
    rw [hdigits] at hnear
    rw [nearlyEqual_iff, Nat.cast_mul m, Nat.cast_mul (n * 10 ^ d), ha, hb, ← mul_assoc, ← mul_assoc,
      ← sub_mul, abs_mul, abs_of_pos hscale, mul_right_comm _ scale]
    exact mul_le_mul_of_nonneg_right hnear hscale.le
  have heq := hencloses.eq hpos hm hscaled
  have hden : 0 < c.den := by
    have hnum : 0 < c.num * l.den := by
      rw [hencloses.1]
      omega
    have hprod := Nat.mul_pos (Nat.pos_of_mul_pos_right hnum) hpos
    rw [← heq] at hprod
    exact Nat.pos_of_mul_pos_left hprod
  -- both sides times the denominator in the middle
  have hcross : n * 10 ^ d * a * c.den = c.num * a * m := by
    rw [Nat.mul_right_comm, heq]
    ring
  -- what the search has left of the fraction in the middle
  rcases hmiddle with hequal | hfar | hmiss
  · left
    have hsame : n * 10 ^ d * a = m * b := by
      refine Nat.eq_of_mul_eq_mul_right hden ?_
      rw [hcross, hequal]
      ring
    have hsame' : ((n * 10 ^ d : Nat) * a : ℚ) = m * b := by exact_mod_cast hsame
    rw [ha, hb, ← mul_assoc, ← mul_assoc] at hsame'
    rw [hdigits]
    exact mul_right_cancel₀ hscale.ne' hsame'
  · refine absurd ((nearlyEqual_mul_iff hpos).mp ?_) hfar
    rw [← hcross, show c.den * b * m = m * b * c.den by ring]
    exact (nearlyEqual_mul_iff hden).mpr hscaled
  · right
    exact miss_of_eq hmiss hpos hm heq

end PathPolicy.Decimal
