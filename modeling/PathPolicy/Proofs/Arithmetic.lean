import PathPolicy.Proofs.Rounding

/-!
How large the results of floating-point arithmetic are. A result is the exact one rounded, so that
it does not pass a power of two unless the exact one is well past it.
-/
namespace PathPolicy.Double
open Float.Model
open UnpackedFloat (Sign)

/-- A number that is at most `2 ^ N` away from zero. -/
def Within (N : Nat) (x : Extended) : Prop := ∃ q : ℚ, x = Extended.ofRat q ∧ |q| ≤ 2 ^ N

theorem Within.mono {M N : Nat} {x : Extended} (h : Within M x) (hMN : M ≤ N) : Within N x := by
  obtain ⟨q, hx, hq⟩ := h
  have hpow : (2 : ℚ) ^ M ≤ 2 ^ N := pow_le_pow_right₀ (by norm_num) hMN
  exact ⟨q, hx, hq.trans hpow⟩

def Nonneg (u : UnpackedFloat) : Prop :=
  u = .infinity .positive ∨ ∃ q : ℚ, exactOf u = Extended.ofRat q ∧ 0 ≤ q

/-! ### Packed results -/

section Packed
variable {q : ℚ} {u : UnpackedFloat} {N : Nat}

theorem exponent_le {m : Nat} {e : Int} (hc : Canonical m e) (hN : N ≤ 1023)
    (h : (m * 2 ^ e : ℚ) ≤ 2 ^ N) : e ≤ 971 := by
  by_contra he
  have hfull : 2 ^ 52 ≤ m := by
    have := hc.full
    omega
  have hfull' : (2 : ℚ) ^ 52 ≤ m := by exact_mod_cast hfull
  have hpow : (2 : ℚ) ^ (52 + e) ≤ 2 ^ (N : Int) := by
    calc
      (2 : ℚ) ^ (52 + e) = 2 ^ 52 * 2 ^ e := by
        rw [zpow_add₀ (by norm_num)]
        norm_num
      _ ≤ m * 2 ^ e := mul_le_mul_of_nonneg_right hfull' (zpow_pos (by norm_num) e).le
      _ ≤ 2 ^ (N : Int) := by rwa [zpow_natCast]
  have hle := (zpow_le_zpow_iff_right₀ (by norm_num)).mp hpow
  omega

theorem Rounded.within (h : Rounded q u) (hN : N ≤ 1023)
    (hq : |q| * 2 ^ 53 < 2 ^ N * (2 ^ 53 + 1)) :
    Within N (exactOf (Float.Model.pack u).unpack) := by
  cases h with
  | zero s =>
    rw [unpack_pack_zero]
    exact ⟨0, rfl, by simp⟩
  | @finite s m e h hc _ hle =>
    rw [unpack_pack_finite h hc (exponent_le hc hN (hle N hq))]
    refine ⟨_, rfl, ?_⟩
    rw [abs_apply_mul]
    exact hle N hq

theorem Rounded.le (h : Rounded q u) (hN : N ≤ 1023) (hq : q * 2 ^ 53 < 2 ^ N * (2 ^ 53 + 1)) :
    exactOf (Float.Model.pack u).unpack ≤ Extended.ofRat (2 ^ N) := by
  rcases lt_or_ge q 0 with hneg | hpos
  · cases h with
    | zero s =>
      rw [unpack_pack_zero, exactOf, Extended.ofRat_le_ofRat]
      positivity
    | @finite s m e h hc hsign _ =>
      obtain rfl := hsign.mpr hneg
      obtain hpack | hpack := unpack_pack_cases .negative h hc
      · rw [hpack, exactOf_negative, Extended.ofRat_le_ofRat]
        have hmagnitude := magnitude_pos h e
        have hpow : (0 : ℚ) < 2 ^ N := by positivity
        linarith
      · rw [hpack]
        exact bot_le
  · rw [← abs_of_nonneg hpos] at hq
    obtain ⟨p, hp, hle⟩ := h.within hN hq
    rw [hp, Extended.ofRat_le_ofRat]
    exact (le_abs_self p).trans hle

theorem Rounded.pos (h : Rounded q u) (hq : 2 ^ (-1074 : Int) ≤ q) :
    Extended.ofRat 0 < exactOf (Float.Model.pack u).unpack := by
  have hpos : 0 < q := lt_of_lt_of_le (zpow_pos (by norm_num) _) hq
  cases h with
  | zero s hsmall =>
    rw [abs_of_pos hpos] at hsmall
    exact absurd hq hsmall.not_ge
  | @finite s m e h hc hsign _ =>
    cases s with
    | negative => exact absurd (hsign.mp rfl) hpos.not_gt
    | positive =>
      obtain hpack | hpack := unpack_pack_cases .positive h hc
      · rw [hpack, exactOf_positive, Extended.ofRat_lt_ofRat]
        exact magnitude_pos h e
      · rw [hpack]
        exact Extended.ofRat_lt_top 0

theorem Rounded.nonneg (h : Rounded q u) (hq : 0 ≤ q) : Nonneg (Float.Model.pack u).unpack := by
  cases h with
  | zero s =>
    rw [unpack_pack_zero]
    exact Or.inr ⟨0, rfl, le_rfl⟩
  | @finite s m e h hc hsign _ =>
    cases s with
    | negative => exact absurd (hsign.mp rfl) hq.not_gt
    | positive =>
      obtain hpack | hpack := unpack_pack_cases .positive h hc
      · rw [hpack]
        exact Or.inr ⟨_, exactOf_positive h, (magnitude_pos h e).le⟩
      · exact Or.inl hpack

end Packed

/-! ### Exact results, rounded -/

section Operations
variable {x y : Float} {p q : ℚ}

theorem cases_of_exact (hx : exact x = Extended.ofRat q) :
    (∃ s, x.toModel.unpack = .zero s ∧ q = 0) ∨
      ∃ s m e h, x.toModel.unpack = .finite s m e h ∧ q = s.apply m * 2 ^ e ∧ Canonical m e := by
  rw [exact] at hx
  cases hu : x.toModel.unpack with
  | notANumber =>
    rw [hu] at hx
    exact absurd hx (Extended.ofRat_lt_top q).ne'
  | infinity s =>
    rw [hu] at hx
    cases s with
    | negative => exact absurd hx (Extended.bot_lt_ofRat q).ne
    | positive => exact absurd hx (Extended.ofRat_lt_top q).ne'
  | zero s =>
    rw [hu, exactOf, Extended.ofRat_inj] at hx
    exact Or.inl ⟨s, rfl, hx.symm⟩
  | finite s m e h =>
    rw [hu, exactOf, Extended.ofRat_inj] at hx
    exact Or.inr ⟨s, m, e, h, rfl, hx.symm, canonical_of_unpack hu⟩

theorem unpack_of_exact_bot (hx : exact x = ⊥) : x.toModel.unpack = .infinity .negative := by
  rw [exact] at hx
  cases hu : x.toModel.unpack with
  | infinity s =>
    cases s with
    | negative => rfl
    | positive =>
      rw [hu] at hx
      exact absurd hx top_ne_bot
  | notANumber =>
    rw [hu] at hx
    exact absurd hx top_ne_bot
  | zero s =>
    rw [hu] at hx
    exact absurd hx.symm (Extended.bot_lt_ofRat _).ne
  | finite s m e h =>
    rw [hu] at hx
    exact absurd hx.symm (Extended.bot_lt_ofRat _).ne

theorem unpack_of_exact_pos (hx : exact x = Extended.ofRat p) (hp : 0 < p) :
    ∃ m e h, x.toModel.unpack = .finite .positive m e h := by
  obtain ⟨s, -, rfl⟩ | ⟨s, m, e, h, hu, rfl, -⟩ := cases_of_exact hx
  · exact absurd hp (lt_irrefl 0)
  · cases s with
    | negative => exact absurd hp ((apply_mul_neg_iff .negative h e).mpr rfl).not_gt
    | positive => exact ⟨m, e, h, hu⟩

theorem rounded_of_canonical (s : Sign) {m : Nat} {e : Int} (hm : 0 < m) (hc : Canonical m e) :
    Rounded (s.apply m * 2 ^ e) (.finite s m e hm) := by
  refine Rounded.finite hc (apply_mul_neg_iff s hm e).symm ?_
  intro N hN
  rw [abs_apply_mul] at hN
  have htarget := target_of_canonical hm hc
  have hle := nearest_mul_le (k := 0) hm (by simpa using htarget) hN
  have hnearest : nearest m 0 = m := rfl
  simpa [hnearest] using hle

theorem apply_neg (s : Sign) (n : Int) : (-s).apply n = -s.apply n := by
  cases s with
  | negative => exact (Int.neg_neg n).symm
  | positive => rfl

theorem apply_mul_apply (s t : Sign) (m n : Int) :
    (s * t).apply (m * n) = s.apply m * t.apply n := by
  cases s <;> cases t
  · exact (Int.neg_mul_neg m n).symm
  · exact (Int.neg_mul m n).symm
  · exact (Int.mul_neg m n).symm
  · rfl

theorem apply_decreaseExponent (s : Sign) (m : Nat) {e t : Int} (h : t ≤ e) :
    ((s.apply (UnpackedFloat.decreaseExponent m e t).1 : Int) : ℚ) * 2 ^ t =
      s.apply m * 2 ^ e := by
  have hshift := apply_shiftLeft_mul s m (e - t).toNat e
  rwa [show e - ((e - t).toNat : Int) = t by omega] at hshift

theorem rounded_add (hx : exact x = Extended.ofRat p) (hy : exact y = Extended.ofRat q) :
    Rounded (p + q) (UnpackedFloat.add .binary64 x.toModel.unpack y.toModel.unpack) := by
  obtain ⟨s, hu, rfl⟩ | ⟨s, m, e, hm, hu, rfl, hcm⟩ := cases_of_exact hx
  · rw [hu, zero_add]
    obtain ⟨t, hv, rfl⟩ | ⟨t, n, f, hn, hv, rfl, hcn⟩ := cases_of_exact hy
    · rw [hv, UnpackedFloat.add]
      split <;> exact Rounded.zero _ (by norm_num)
    · rw [hv]
      exact rounded_of_canonical t hn hcn
  · obtain ⟨t, hv, rfl⟩ | ⟨t, n, f, hn, hv, rfl, hcn⟩ := cases_of_exact hy
    · rw [hu, hv, add_zero]
      exact rounded_of_canonical s hm hcm
    · rw [hu, hv, ← apply_decreaseExponent s m (min_le_left e f),
        ← apply_decreaseExponent t n (min_le_right e f), ← add_mul, ← Int.cast_add]
      exact rounded_normalize _ _ _

theorem rounded_sub (hx : exact x = Extended.ofRat p) (hy : exact y = Extended.ofRat q) :
    Rounded (p - q) (UnpackedFloat.sub .binary64 x.toModel.unpack y.toModel.unpack) := by
  obtain ⟨s, hu, rfl⟩ | ⟨s, m, e, hm, hu, rfl, hcm⟩ := cases_of_exact hx
  · rw [hu, zero_sub]
    obtain ⟨t, hv, rfl⟩ | ⟨t, n, f, hn, hv, rfl, hcn⟩ := cases_of_exact hy
    · rw [hv, UnpackedFloat.sub]
      split <;> exact Rounded.zero _ (by norm_num)
    · rw [hv, ← neg_mul, ← Int.cast_neg, ← apply_neg]
      exact rounded_of_canonical (-t) hn hcn
  · obtain ⟨t, hv, rfl⟩ | ⟨t, n, f, hn, hv, rfl, hcn⟩ := cases_of_exact hy
    · rw [hu, hv, sub_zero]
      exact rounded_of_canonical s hm hcm
    · rw [hu, hv, ← apply_decreaseExponent s m (min_le_left e f),
        ← apply_decreaseExponent t n (min_le_right e f), ← sub_mul, ← Int.cast_sub]
      exact rounded_normalize _ _ _

theorem le_target_mul {m n : Nat} {e f : Int} (hm : 0 < m) (hn : 0 < n) (hcm : Canonical m e)
    (hcn : Canonical n f) :
    e + f ≤ Format.binary64.targetExponent (totalExponent (m * n) (e + f)) := by
  have hlog : ∀ k, 2 ^ 52 ≤ k → k ≤ m * n → 52 ≤ (m * n).log2 := fun k hk hle =>
    (Nat.le_log2 (Nat.mul_pos hm hn).ne').mpr (hk.trans hle)
  rw [targetExponent_eq]
  rcases hcm.full with he | hfull
  · rcases hcn.full with hf | hfull
    · omega
    · have := hlog n hfull (Nat.le_mul_of_pos_left n hm)
      omega
  · have := hlog m hfull (Nat.le_mul_of_pos_right m hn)
    omega

theorem rounded_mul (hx : exact x = Extended.ofRat p) (hy : exact y = Extended.ofRat q) :
    Rounded (p * q) (UnpackedFloat.mul .binary64 x.toModel.unpack y.toModel.unpack) := by
  obtain ⟨s, hu, rfl⟩ | ⟨s, m, e, hm, hu, rfl, hcm⟩ := cases_of_exact hx
  · obtain ⟨t, hv, rfl⟩ | ⟨t, n, f, hn, hv, rfl, hcn⟩ := cases_of_exact hy
    · rw [hu, hv]
      exact Rounded.zero _ (by norm_num)
    · rw [hu, hv, zero_mul]
      exact Rounded.zero _ (by norm_num)
  · obtain ⟨t, hv, rfl⟩ | ⟨t, n, f, hn, hv, rfl, hcn⟩ := cases_of_exact hy
    · rw [hu, hv, mul_zero]
      exact Rounded.zero _ (by norm_num)
    · have hvalue : (s.apply m * 2 ^ e * (t.apply n * 2 ^ f) : ℚ) =
          (s * t).apply (m * n : Nat) * 2 ^ (e + f) := by
        rw [Nat.cast_mul, apply_mul_apply, zpow_add₀ (by norm_num)]
        push_cast
        ring
      rw [hu, hv, hvalue]
      exact rounded_roundWithAccuracy _ (Nat.mul_pos hm hn) (le_target_mul hm hn hcm hcn)

end Operations

/-! ### How large results are -/

section Bounds
variable {x y : Float} {p q : ℚ} {N : Nat}

theorem within_add {M K : Nat} (hx : Within N (exact x)) (hy : Within M (exact y)) (hK : K ≤ 1023)
    (h : (2 ^ N + 2 ^ M) * 2 ^ 53 < 2 ^ K * (2 ^ 53 + 1)) : Within K (exact (x + y)) := by
  obtain ⟨p, hp, hpN⟩ := hx
  obtain ⟨q, hq, hqM⟩ := hy
  apply (rounded_add hp hq).within hK
  have h' : ((2 ^ N + 2 ^ M) * 2 ^ 53 : ℚ) < 2 ^ K * (2 ^ 53 + 1) := by exact_mod_cast h
  calc
    |p + q| * 2 ^ 53 ≤ (2 ^ N + 2 ^ M) * 2 ^ 53 := by
      have habs := abs_add_le p q
      linarith
    _ < 2 ^ K * (2 ^ 53 + 1) := h'

theorem exact_add_pos (hx : exact x = Extended.ofRat p) (hp : 0 ≤ p)
    (hy : exact y = Extended.ofRat q) (hq : 1 ≤ q) : Extended.ofRat 0 < exact (x + y) := by
  apply (rounded_add hx hy).pos
  have hsmall : (2 : ℚ) ^ (-1074 : Int) ≤ 1 := zpow_le_one_of_nonpos₀ (by norm_num) (by norm_num)
  linarith

theorem unpack_zero : (0 : Float).toModel.unpack = .zero .positive := by rfl

theorem unpack_one :
    (1 : Float).toModel.unpack = .finite .positive (2 ^ 52) (-52) (by decide) := by rfl

theorem exact_one : exact 1 = Extended.ofRat 1 := by
  rw [exact, unpack_one, exactOf_positive]
  norm_num

theorem nonneg_of_le (h : 0 ≤ x) : Nonneg x.toModel.unpack := by
  have hle := (le_iff_le 0 x).mp h
  rw [unpack_zero] at hle
  cases hu : x.toModel.unpack with
  | notANumber =>
    rw [hu] at hle
    exact absurd hle (by decide)
  | infinity s =>
    rw [hu] at hle
    cases s with
    | negative => exact absurd hle (by decide)
    | positive => exact Or.inl rfl
  | zero s => exact Or.inr ⟨0, rfl, le_rfl⟩
  | finite s m e hm =>
    rw [hu] at hle
    cases s with
    | negative => exact absurd hle (by simp [UnpackedFloat.le, UnpackedFloat.compare])
    | positive => exact Or.inr ⟨_, exactOf_positive hm, (magnitude_pos hm e).le⟩

theorem nonneg_mul (hx : exact x = Extended.ofRat p) (hp : 0 < p)
    (hy : Nonneg y.toModel.unpack) : Nonneg (x * y).toModel.unpack := by
  rcases hy with hinfinity | ⟨q, hy, hq⟩
  · obtain ⟨m, e, h, hu⟩ := unpack_of_exact_pos hx hp
    left
    change (Float.Model.pack (UnpackedFloat.mul .binary64 x.toModel.unpack
      y.toModel.unpack)).unpack = _
    rw [hu, hinfinity]
    exact unpack_pack_infinity .positive
  · exact (rounded_mul hx hy).nonneg (mul_nonneg hp.le hq)

theorem exact_sub_le (hx : exact x = Extended.ofRat p) (hp : p ≤ 2 ^ N) (hN : N ≤ 1023)
    (hy : Nonneg y.toModel.unpack) : exact (x - y) ≤ Extended.ofRat (2 ^ N) := by
  rcases hy with hinfinity | ⟨q, hy, hq⟩
  · have hbottom : exact (x - y) = ⊥ := by
      change exactOf (Float.Model.pack (UnpackedFloat.sub .binary64 x.toModel.unpack
        y.toModel.unpack)).unpack = ⊥
      obtain ⟨s, hu, -⟩ | ⟨s, m, e, hm, hu, -⟩ := cases_of_exact hx
      · rw [hu, hinfinity]
        exact congrArg exactOf (unpack_pack_infinity .negative)
      · rw [hu, hinfinity]
        exact congrArg exactOf (unpack_pack_infinity .negative)
    rw [hbottom]
    exact bot_le
  · apply (rounded_sub hx hy).le hN
    have hpow : (0 : ℚ) < 2 ^ N := by positivity
    linarith

theorem exact_mul_le (hx : exact x = Extended.ofRat p) (hpos : 0 < p) (hp : p ≤ 2 ^ N)
    (hN : N ≤ 1023) (hy : exact y ≤ Extended.ofRat 1) :
    exact (x * y) ≤ Extended.ofRat (2 ^ N) := by
  rcases Extended.eq_ofRat_of_lt_top (hy.trans_lt (Extended.ofRat_lt_top 1)) with hbot | ⟨q, hq⟩
  · have hbottom : exact (x * y) = ⊥ := by
      obtain ⟨m, e, h, hu⟩ := unpack_of_exact_pos hx hpos
      change exactOf (Float.Model.pack (UnpackedFloat.mul .binary64 x.toModel.unpack
        y.toModel.unpack)).unpack = ⊥
      rw [hu, unpack_of_exact_bot hbot]
      exact congrArg exactOf (unpack_pack_infinity .negative)
    rw [hbottom]
    exact bot_le
  · rw [hq, Extended.ofRat_le_ofRat] at hy
    apply (rounded_mul hx hq).le hN
    have hpow : (0 : ℚ) < 2 ^ N := by positivity
    have hle : p * q ≤ p := mul_le_of_le_one_right hpos.le hy
    linarith

/-! ### How large converted numbers are -/

theorem within_ofInt {n : Int} (hn : |n| ≤ 2 ^ N) (hN : N ≤ 1023) :
    Within N (exact (ofInt n)) := by
  apply (rounded_normalize n 0 .positive).within hN
  have hn' : |(n : ℚ)| ≤ 2 ^ N := by exact_mod_cast hn
  have hpow : (0 : ℚ) < 2 ^ N := by positivity
  rw [zpow_zero, mul_one]
  linarith

section Scientific
variable {n : Nat} (hlow : 2 ^ 53 ≤ n)
include hlow

theorem le_target_shifted :
    (-53 : Int) ≤ Format.binary64.targetExponent (totalExponent (n <<< 53) (-53)) := by
  rw [targetExponent_eq, log2_shiftLeft (by omega)]
  omega

theorem unpack_ofScientific : (Float.ofScientific n false 0).toModel.unpack = (Float.Model.pack
    (UnpackedFloat.roundWithAccuracy .binary64 .positive (n <<< 53) (-53) .exact)).unpack := by
  have hbits : (0 : Int) ≤ 2 ^ Format.binary64.exponentBits := by positivity
  rw [Float.ofScientific, dif_neg (by omega), ← Nat.mul_one (n <<< 53)]
  change (Float.Model.pack (UnpackedFloat.ofScientific .binary64 n 0)).unpack = _
  rw [UnpackedFloat.ofScientific, dif_neg (by omega), if_neg (by decide), if_neg (by omega),
    if_pos le_rfl]
  rfl

theorem within_ofScientific (hn : n ≤ 2 ^ N) (hN : N ≤ 1023) :
    Within N (exact (Float.ofScientific n false 0)) := by
  have hpos : 0 < n <<< 53 := by
    rw [Nat.shiftLeft_eq]
    positivity
  have hvalue : ((n <<< 53 : Nat) : ℚ) * 2 ^ (-53 : Int) = n := by
    have hshift := shiftLeft_mul n 53 0
    rwa [zpow_zero, mul_one] at hshift
  have hn' : (n : ℚ) ≤ 2 ^ N := by exact_mod_cast hn
  have hpow : (0 : ℚ) < 2 ^ N := by positivity
  rw [exact, unpack_ofScientific hlow]
  apply (rounded_roundWithAccuracy .positive hpos (le_target_shifted hlow)).within hN
  rw [abs_apply_mul, hvalue]
  linarith

end Scientific

end Bounds

end PathPolicy.Double
