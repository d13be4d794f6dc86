import PathPolicy.Proofs.Near

/-!
Whole numbers among those of floating-point. A difference of two numbers is never rounded to zero,
so that what is left of a number without its whole part is zero of whole numbers only.
-/
namespace PathPolicy.Double
open Float.Model
open UnpackedFloat (Sign)

variable {x y : Float} {p q : ℚ}

/-! ### Comparisons -/

theorem swap_then_compare (e f : Int) (m n : Nat) :
    ((compare e f).then (compare m n)).swap = (compare f e).then (compare n m) := by
  rw [Ordering.swap_then, ← Std.OrientedCmp.eq_swap, ← Std.OrientedCmp.eq_swap]

theorem swap_compare (u v : UnpackedFloat) :
    (UnpackedFloat.compare u v).map Ordering.swap = UnpackedFloat.compare v u := by
  cases u with
  | notANumber => cases v <;> rfl
  | infinity s =>
    cases v with
    | infinity t => cases s <;> cases t <;> rfl
    | _ => cases s <;> rfl
  | zero s =>
    cases v with
    | infinity t => cases t <;> rfl
    | finite t n f h => cases t <;> rfl
    | _ => rfl
  | finite s m e h =>
    cases v with
    | notANumber => rfl
    | infinity t => cases s <;> cases t <;> rfl
    | zero t => cases s <;> rfl
    | finite t n f h' =>
      cases s <;> cases t
      · exact congrArg (fun o => some (Ordering.swap o)) (swap_then_compare e f m n)
      · rfl
      · rfl
      · exact congrArg some (swap_then_compare e f m n)

theorem exists_compare (hx : exact x = Extended.ofRat p) (hy : exact y = Extended.ofRat q) :
    ∃ o, UnpackedFloat.compare x.toModel.unpack y.toModel.unpack = some o := by
  obtain ⟨s, hu, -⟩ | ⟨s, m, e, hm, hu, -⟩ := cases_of_exact hx
  · obtain ⟨t, hv, -⟩ | ⟨t, n, f, hn, hv, -⟩ := cases_of_exact hy
    · exact ⟨_, by rw [hu, hv]; rfl⟩
    · rw [hu, hv]
      cases t <;> exact ⟨_, rfl⟩
  · obtain ⟨t, hv, -⟩ | ⟨t, n, f, hn, hv, -⟩ := cases_of_exact hy
    · rw [hu, hv]
      cases s <;> exact ⟨_, rfl⟩
    · rw [hu, hv]
      cases s <;> cases t <;> exact ⟨_, rfl⟩

theorem unpack_ne_notANumber (hx : exact x = Extended.ofRat p) :
    x.toModel.unpack ≠ .notANumber := by
  intro hu
  rw [exact, hu] at hx
  exact (Extended.ofRat_lt_top p).ne' hx

theorem lt_iff_of_exact (hx : exact x = Extended.ofRat p) (hy : exact y = Extended.ofRat q) :
    x < y ↔ p < q := by
  rw [lt_iff_exact_lt (unpack_ne_notANumber hy), hx, hy, Extended.ofRat_lt_ofRat]

theorem le_iff_of_exact (hx : exact x = Extended.ofRat p) (hy : exact y = Extended.ofRat q) :
    x ≤ y ↔ p ≤ q := by
  obtain ⟨o, ho⟩ := exists_compare hx hy
  have hswap := swap_compare x.toModel.unpack y.toModel.unpack
  rw [← not_lt, ← lt_iff_of_exact hy hx, le_iff_le, lt_iff_compare, UnpackedFloat.le, ← hswap,
    ho]
  cases o <;> decide

theorem apply_mul_ne_zero (s : Sign) {m : Nat} (hm : 0 < m) (e : Int) :
    (s.apply m * 2 ^ e : ℚ) ≠ 0 := by
  rw [← abs_pos, abs_apply_mul]
  exact magnitude_pos hm e

theorem beq_zero_iff (x : Float) : (x == 0) = true ↔ exact x = Extended.ofRat 0 := by
  have hbeq : (x == 0) =
      (UnpackedFloat.compare x.toModel.unpack (.zero .positive) == some .eq) := rfl
  rw [hbeq, beq_iff_eq, exact]
  cases x.toModel.unpack with
  | notANumber => simp [UnpackedFloat.compare, exactOf, (Extended.ofRat_lt_top 0).ne']
  | infinity s =>
    cases s with
    | negative => simp [UnpackedFloat.compare, exactOf, (Extended.bot_lt_ofRat 0).ne]
    | positive => simp [UnpackedFloat.compare, exactOf, (Extended.ofRat_lt_top 0).ne']
  | zero s => simp [UnpackedFloat.compare, exactOf]
  | finite s m e h =>
    have hne := apply_mul_ne_zero s h e
    rw [exactOf, Extended.ofRat_inj]
    cases s <;> simp only [UnpackedFloat.compare, hne] <;> simp

theorem isFinite_iff (x : Float) : x.isFinite = true ↔ ∃ q, exact x = Extended.ofRat q := by
  have hunpack : x.isFinite = x.toModel.unpack.isFinite := rfl
  rw [hunpack, exact]
  cases x.toModel.unpack with
  | notANumber => simp [UnpackedFloat.isFinite, exactOf, (Extended.ofRat_lt_top _).ne']
  | infinity s =>
    cases s with
    | negative => simp [UnpackedFloat.isFinite, exactOf, (Extended.bot_lt_ofRat _).ne]
    | positive => simp [UnpackedFloat.isFinite, exactOf, (Extended.ofRat_lt_top _).ne']
  | zero s => simp [UnpackedFloat.isFinite, exactOf]
  | finite s m e h => simp [UnpackedFloat.isFinite, exactOf]

/-! ### Differences -/

theorem exists_multiple (hx : exact x = Extended.ofRat p) :
    ∃ n : Int, p = n * 2 ^ (-1074 : Int) := by
  obtain ⟨s, -, rfl⟩ | ⟨s, m, e, hm, -, rfl, hc⟩ := cases_of_exact hx
  · exact ⟨0, by rw [Int.cast_zero, zero_mul]⟩
  · obtain ⟨d, hd⟩ := Int.le.dest hc.least_le
    refine ⟨s.apply m * 2 ^ d, ?_⟩
    rw [← hd, zpow_add₀ (by norm_num), zpow_natCast, Int.cast_mul, Int.cast_pow, Int.cast_ofNat,
      mul_assoc, mul_comm (2 ^ d)]

theorem Rounded.ne_zero {u : UnpackedFloat} (h : Rounded q u) (hq : 2 ^ (-1074 : Int) ≤ |q|) :
    exactOf (Float.Model.pack u).unpack ≠ Extended.ofRat 0 := by
  cases h with
  | zero s hsmall => exact absurd hq hsmall.not_ge
  | @finite s m e h hc _ _ =>
    obtain hpack | hpack := unpack_pack_cases s h hc
    · rw [hpack, exactOf, Ne, Extended.ofRat_inj]
      exact apply_mul_ne_zero s h e
    · rw [hpack]
      cases s with
      | negative => exact (Extended.bot_lt_ofRat 0).ne
      | positive => exact (Extended.ofRat_lt_top 0).ne'

theorem exact_sub_self (hx : exact x = Extended.ofRat q) (hy : exact y = Extended.ofRat q) :
    exact (x - y) = Extended.ofRat 0 := by
  change exactOf (Float.Model.pack (UnpackedFloat.sub .binary64 x.toModel.unpack
    y.toModel.unpack)).unpack = _
  obtain ⟨s, hu, rfl⟩ | ⟨s, m, e, hm, hu, rfl, -⟩ := cases_of_exact hx
  · obtain ⟨t, hv, -⟩ | ⟨t, n, f, hn, -, hzero, -⟩ := cases_of_exact hy
    · rw [hu, hv, UnpackedFloat.sub]
      split <;> rw [unpack_pack_zero] <;> rfl
    · exact absurd hzero.symm (apply_mul_ne_zero t hn f)
  · obtain ⟨t, -, hzero⟩ | ⟨t, n, f, hn, hv, heq, -⟩ := cases_of_exact hy
    · exact absurd hzero (apply_mul_ne_zero s hm e)
    · -- with one exponent the two have one significand
      rw [← apply_decreaseExponent s m (min_le_left e f),
        ← apply_decreaseExponent t n (min_le_right e f),
        mul_left_inj' (zpow_pos (by norm_num) _).ne', Int.cast_inj] at heq
      have hsub : UnpackedFloat.sub .binary64 x.toModel.unpack y.toModel.unpack =
          .zero .positive := by
        rw [hu, hv, UnpackedFloat.sub]
        simp only [heq, Int.sub_self]
        rfl
      rw [hsub, unpack_pack_zero]
      rfl

/-- No difference is so small that it is rounded to zero. -/
theorem exact_sub_eq_zero_iff (hx : exact x = Extended.ofRat p) (hy : exact y = Extended.ofRat q) :
    exact (x - y) = Extended.ofRat 0 ↔ p = q := by
  constructor
  · intro hzero
    by_contra hne
    refine (rounded_sub hx hy).ne_zero ?_ hzero
    obtain ⟨m, rfl⟩ := exists_multiple hx
    obtain ⟨n, rfl⟩ := exists_multiple hy
    have hpow : (0 : ℚ) < 2 ^ (-1074 : Int) := zpow_pos (by norm_num) _
    have hdiff : m - n ≠ 0 := by
      intro h
      rw [sub_eq_zero.mp h] at hne
      exact hne rfl
    have hone : (1 : ℚ) ≤ |(m - n : Int)| := by exact_mod_cast Int.one_le_abs hdiff
    rw [← sub_mul, abs_mul, abs_of_pos hpow, ← Int.cast_sub, ← Int.cast_abs]
    exact le_mul_of_one_le_left hpow.le hone
  · rintro rfl
    exact exact_sub_self hx hy

/-! ### Whole numbers -/

theorem cast_apply (s : Sign) (n : Int) : ((s.apply n : Int) : ℚ) = s.apply 1 * n := by
  cases s <;> simp [Sign.apply]

theorem cast_apply_mul_pow (s : Sign) (m n : Nat) :
    ((s.apply (m * 2 ^ n : Nat) : Int) : ℚ) = s.apply m * 2 ^ (n : Int) := by
  rw [cast_apply, cast_apply s m, zpow_natCast]
  push_cast
  ring

theorem exact_round_whole (s : Sign) {m : Nat} (hm : m < 2 ^ 53) :
    exactOf (Float.Model.pack (UnpackedFloat.round .binary64 s m 0)).unpack =
      Extended.ofRat (s.apply m : Int) := by
  rcases Nat.eq_zero_or_pos m with rfl | hpos
  · cases s <;> rfl
  · have hlow : (1 : ℚ) ≤ m := by exact_mod_cast hpos
    have hhigh : (m : ℚ) < 2 ^ 53 := by exact_mod_cast hm
    have hnormal : Normal ((m : ℚ) * 2 ^ (0 : Int)) := by
      rw [zpow_zero, mul_one]
      apply normal_of_bounds <;> linarith
    obtain ⟨n, f, h, hround, hc, hf, hnear⟩ := round_near s hpos hnormal
    have hvalue := hnear.eq_of_short hm
    rw [zpow_zero, mul_one] at hvalue
    rw [hround, exact_pack hc hf, cast_apply, mul_assoc, Int.cast_natCast, hvalue,
      ← Int.cast_natCast, ← cast_apply]

theorem roundToInt_eq (s : Sign) (m : Nat) (e : Int) : UnpackedFloat.roundToInt s m e =
    s.apply (m * 2 ^ e.toNat / 2 ^ (-e).toNat : Nat) := by
  have hdropped : UnpackedFloat.roundToInt s m e =
      s.apply (dropped (m <<< (e - 0).toNat) (0 - (e - (e - 0).toNat)).toNat).mantissa := rfl
  have hplace : (0 - (e - (e - 0).toNat)).toNat = (-e).toNat := by omega
  rw [hdropped, mantissa_dropped, hplace, sub_zero, Nat.shiftLeft_eq]

/-- A finite number without its fraction is the one that conversion takes. -/
theorem exact_trunc (hx : exact x = Extended.ofRat q) (low high : Int) :
    exact (trunc x) = Extended.ofRat (x.toModel.unpack.toInt low high) := by
  rw [trunc]
  obtain ⟨s, hu, rfl⟩ | ⟨s, m, e, hm, hu, rfl, hc⟩ := cases_of_exact hx
  · rw [hu]
    exact hx
  · simp only [hu, UnpackedFloat.toInt, roundToInt_eq]
    split
    next he =>
      obtain ⟨n, rfl⟩ := Int.eq_ofNat_of_zero_le he
      rw [hx, Int.toNat_natCast, show (-(n : Int)).toNat = 0 by omega, pow_zero, Nat.div_one,
        cast_apply_mul_pow]
    next he =>
      have hlt : m / 2 ^ (-e).toNat < 2 ^ 53 := (Nat.div_le_self _ _).trans_lt hc.lt
      rw [show e.toNat = 0 by omega, pow_zero, mul_one]
      exact exact_round_whole s hlt

theorem toInt_eq (k : Int) (hx : exact x = Extended.ofRat k) (low high : Int) :
    x.toModel.unpack.toInt low high = k := by
  obtain ⟨s, hu, hzero⟩ | ⟨s, m, e, hm, hu, hvalue, -⟩ := cases_of_exact hx
  · rw [hu, UnpackedFloat.toInt]
    exact_mod_cast hzero.symm
  · rw [hu, UnpackedFloat.toInt, roundToInt_eq]
    rcases le_total 0 e with he | he
    · obtain ⟨n, rfl⟩ := Int.eq_ofNat_of_zero_le he
      rw [Int.toNat_natCast, show (-(n : Int)).toNat = 0 by omega, pow_zero, Nat.div_one]
      rw [← cast_apply_mul_pow, Int.cast_inj] at hvalue
      exact hvalue.symm
    · obtain ⟨n, hn⟩ := Int.eq_ofNat_of_zero_le (show 0 ≤ -e by omega)
      obtain rfl : e = -n := by omega
      have hpow : (2 : ℚ) ^ n ≠ 0 := by positivity
      rw [zpow_neg, zpow_natCast, ← div_eq_mul_inv, eq_div_iff hpow] at hvalue
      have hwhole : s.apply m = k * 2 ^ n := by exact_mod_cast hvalue.symm
      have hpos : (2 : Int) ^ n ≠ 0 := by positivity
      rw [show (-(n : Int)).toNat = 0 by omega, neg_neg, Int.toNat_natCast, pow_zero, mul_one]
      push_cast
      cases s with
      | negative =>
        have hm' : (m : Int) = -k * 2 ^ n := by
          rw [neg_mul, ← hwhole]
          exact (neg_neg _).symm
        rw [hm', Int.mul_ediv_cancel _ hpos]
        exact neg_neg k
      | positive =>
        have hm' : (m : Int) = k * 2 ^ n := hwhole
        rw [hm', Int.mul_ediv_cancel _ hpos]
        rfl

theorem fract_eq_zero_iff (hx : exact x = Extended.ofRat q) :
    (fract x == 0) = true ↔ ∃ k : Int, q = k := by
  have htrunc := exact_trunc hx 0 0
  rw [beq_zero_iff, fract, exact_sub_eq_zero_iff hx htrunc]
  constructor
  · exact fun h => ⟨_, h⟩
  · rintro ⟨k, rfl⟩
    rw [toInt_eq k hx]

end PathPolicy.Double
