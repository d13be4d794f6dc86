import PathPolicy.Proofs.Float

/-!
Bounds for rounded results. A number that is packed and unpacked again is the same, and rounding
does not take a number past a power of two that it is less than half a place away from.
-/
namespace PathPolicy.Double
open Float.Model
open UnpackedFloat (Sign packComponents)

/-! ### Packing -/

theorem unpackSign_packComponents {format : Format} (s : Sign)
    (exponent : BitVec format.exponentBits)
    (fraction : BitVec format.mantissaBitsWithoutImplicit) :
    UnpackedFloat.unpackSign (packComponents format s exponent fraction) = s.toBitVec := by
  ext i hi
  obtain rfl : i = 0 := by omega
  simp [UnpackedFloat.unpackSign, packComponents, BitVec.getLsbD_append, BitVec.getElem_append]

theorem ofBitVec_toBitVec (s : Sign) : Sign.ofBitVec s.toBitVec = s := by
  cases s <;> rfl

theorem finite_congr {s : Sign} {m n : Nat} {e f : Int} {hm : 0 < m} {hn : 0 < n} (h : m = n)
    (he : e = f) : UnpackedFloat.finite s m e hm = .finite s n f hn := by
  subst h he
  rfl

theorem unpack_packComponents_normal (s : Sign) {exponent : BitVec 11} (fraction : BitVec 52)
    (hspecial : exponent ≠ -1#11) (hzero : exponent ≠ 0#11) :
    ∃ h, UnpackedFloat.unpack .binary64 (packComponents .binary64 s exponent fraction) =
      .finite s (2 ^ 52 + fraction.toNat) (exponent.toNat - 1075) h := by
  refine ⟨by omega, ?_⟩
  simp only [UnpackedFloat.unpack, UnpackedFloat.unpackMantissa_packComponents,
    UnpackedFloat.unpackExponent_packComponents, unpackSign_packComponents, ofBitVec_toBitVec]
  rw [if_neg hspecial, if_neg hzero]
  exact finite_congr (toNat_one_append fraction) rfl

theorem unpack_packComponents_subnormal (s : Sign) {fraction : BitVec 52} (hne : fraction ≠ 0#52) :
    ∃ h, UnpackedFloat.unpack .binary64 (packComponents .binary64 s 0#11 fraction) =
      .finite s fraction.toNat (-1074) h := by
  have hpos : 0 < fraction.toNat := by
    rw [Nat.pos_iff_ne_zero]
    intro h
    exact hne (BitVec.eq_of_toNat_eq h)
  refine ⟨hpos, ?_⟩
  simp only [UnpackedFloat.unpack, UnpackedFloat.unpackMantissa_packComponents,
    UnpackedFloat.unpackExponent_packComponents, unpackSign_packComponents, ofBitVec_toBitVec]
  rw [if_neg (by decide), if_pos trivial, dif_neg hne]
  exact finite_congr rfl rfl

theorem unpack_pack_zero (s : Sign) : (Float.Model.pack (.zero s)).unpack = .zero s := by
  cases s <;> rfl

theorem unpack_pack_infinity (s : Sign) :
    (Float.Model.pack (.infinity s)).unpack = .infinity s := by
  cases s <;> rfl

theorem biased_eq (e : Int) : (e + (Format.binary64.exponentBias : Int) +
    Format.binary64.mantissaBitsWithoutImplicit).toNat = (e + 1075).toNat := by
  have hoffset : (Format.binary64.exponentBias : Int) = 1023 := rfl
  have hbits : (Format.binary64.mantissaBitsWithoutImplicit : Int) = 52 := rfl
  rw [hoffset, hbits]
  congr 1
  omega

theorem unpack_pack_overflow {s : Sign} {m : Nat} {e : Int} (h : 0 < m) (he : 971 < e) :
    (Float.Model.pack (.finite s m e h)).unpack = .infinity s := by
  change UnpackedFloat.unpack .binary64 (UnpackedFloat.pack .binary64 (.finite s m e h)) = _
  rw [UnpackedFloat.pack, biased_eq, if_pos (by simp; omega)]
  cases s <;> rfl

theorem unpack_pack_finite {s : Sign} {m : Nat} {e : Int} (h : 0 < m) (hc : Canonical m e)
    (he : e ≤ 971) : (Float.Model.pack (.finite s m e h)).unpack = .finite s m e h := by
  obtain ⟨hlt, hleast, hfull⟩ := hc
  change UnpackedFloat.unpack .binary64 (UnpackedFloat.pack .binary64 (.finite s m e h)) = _
  rw [UnpackedFloat.pack, biased_eq, if_neg (by simp; omega)]
  -- a normal number hides its leading bit, and a subnormal one has the exponent zero
  by_cases hm : 2 ^ 52 ≤ m
  · have hlog : m.log2 = 52 := (Nat.log2_eq_iff (by omega)).mpr ⟨hm, hlt⟩
    rw [if_pos (by rw [hlog]; rfl)]
    have hexponent : (BitVec.ofNat 11 (e + 1075).toNat).toNat = (e + 1075).toNat := by
      rw [BitVec.toNat_ofNat]
      omega
    have hspecial : BitVec.ofNat 11 (e + 1075).toNat ≠ -1#11 := by
      intro hs
      have hs' := congrArg BitVec.toNat hs
      rw [hexponent] at hs'
      simp at hs'
      omega
    have hzero : BitVec.ofNat 11 (e + 1075).toNat ≠ 0#11 := by
      intro hz
      have hz' := congrArg BitVec.toNat hz
      rw [hexponent] at hz'
      simp at hz'
      omega
    obtain ⟨_, hunpack⟩ := unpack_packComponents_normal s (BitVec.ofNat 52 m) hspecial hzero
    refine hunpack.trans (finite_congr ?_ ?_)
    · rw [BitVec.toNat_ofNat]
      omega
    · rw [hexponent]
      omega
  · have hlog : m.log2 < 52 := (Nat.log2_lt (by omega)).mpr (by omega)
    have hne : m.log2 + 1 ≠ Format.binary64.mantissaBits := by
      have hbits : Format.binary64.mantissaBits = 53 := rfl
      omega
    have hfraction : (BitVec.ofNat 52 m).toNat = m := by
      rw [BitVec.toNat_ofNat]
      omega
    have hpos : BitVec.ofNat 52 m ≠ 0#52 := by
      intro hz
      have hz' := congrArg BitVec.toNat hz
      rw [hfraction] at hz'
      simp at hz'
      omega
    rw [if_neg hne]
    obtain ⟨_, hunpack⟩ := unpack_packComponents_subnormal s hpos
    exact hunpack.trans (finite_congr hfraction (by omega))

theorem unpack_pack_cases (s : Sign) {m : Nat} {e : Int} (h : 0 < m) (hc : Canonical m e) :
    (Float.Model.pack (.finite s m e h)).unpack = .finite s m e h ∨
      (Float.Model.pack (.finite s m e h)).unpack = .infinity s := by
  rcases le_or_gt e 971 with he | he
  · exact Or.inl (unpack_pack_finite h hc he)
  · exact Or.inr (unpack_pack_overflow h he)

/-! ### Dropping bits -/

section Bits
open UnpackedFloat (ExtendedMantissa)

theorem le_roundedMantissa (em : ExtendedMantissa) : em.mantissa ≤ em.roundedMantissa := by
  obtain ⟨m, r, s⟩ := em
  cases r <;> cases s <;> simp [ExtendedMantissa.roundedMantissa, ExtendedMantissa.accuracy,
    UnpackedFloat.Accuracy.roundToNearestEven]

theorem roundedMantissa_le (em : ExtendedMantissa) : em.roundedMantissa ≤ em.mantissa + 1 := by
  obtain ⟨m, r, s⟩ := em
  cases r <;> cases s <;> simp [ExtendedMantissa.roundedMantissa, ExtendedMantissa.accuracy,
    UnpackedFloat.Accuracy.roundToNearestEven]
  omega

theorem roundedMantissa_of_roundBit {em : ExtendedMantissa} (h : em.roundBit = false) :
    em.roundedMantissa = em.mantissa := by
  obtain ⟨m, r, s⟩ := em
  cases h
  cases s <;> rfl

def dropped (m k : Nat) : ExtendedMantissa := (⟨m, false, false⟩ : ExtendedMantissa) >>> k

theorem dropped_succ (m k : Nat) : dropped m (k + 1) = (dropped m k).shiftRightOne := rfl

theorem mantissa_dropped (m k : Nat) : (dropped m k).mantissa = m / 2 ^ k := by
  induction k with
  | zero => simp [dropped, Nat.repeat, HShiftRight.hShiftRight]
  | succ k ih =>
    rw [dropped_succ, ExtendedMantissa.shiftRightOne, ih, Nat.div_div_eq_div_mul, Nat.pow_succ]

theorem roundBit_dropped_succ (m k : Nat) :
    (dropped m (k + 1)).roundBit = (m / 2 ^ k % 2 != 0) := by
  rw [dropped_succ, ExtendedMantissa.shiftRightOne, mantissa_dropped]

def nearest (m k : Nat) : Nat := (dropped m k).roundedMantissa

theorem div_le_nearest (m k : Nat) : m / 2 ^ k ≤ nearest m k := by
  rw [← mantissa_dropped]
  exact le_roundedMantissa _

theorem nearest_le_div_add_one (m k : Nat) : nearest m k ≤ m / 2 ^ k + 1 := by
  rw [← mantissa_dropped]
  exact roundedMantissa_le _

theorem nearest_le_of_lt {m k d : Nat} (h : m < 2 ^ (d + k)) : nearest m k ≤ 2 ^ d := by
  have hdiv : m / 2 ^ k < 2 ^ d := by
    rw [Nat.div_lt_iff_lt_mul (Nat.two_pow_pos k), ← Nat.pow_add]
    exact h
  have hle := nearest_le_div_add_one m k
  omega

theorem nearest_le_of_lt_half {m k : Nat} (h : m * 2 ^ 53 < 2 ^ (52 + k) * (2 ^ 53 + 1)) :
    nearest m k ≤ 2 ^ 52 := by
  cases k with
  | zero =>
    have hnearest : nearest m 0 = m := rfl
    omega
  | succ j =>
    by_cases hlt : m < 2 ^ (52 + (j + 1))
    · exact nearest_le_of_lt hlt
    · have hpow : 2 ^ (52 + (j + 1)) = 2 ^ j * 2 ^ 53 := by
        rw [← Nat.pow_add]
        congr 1
        omega
      rw [hpow] at h hlt
      have hhigh : m < 2 ^ j * (2 ^ 53 + 1) := by
        apply Nat.lt_of_mul_lt_mul_right (a := 2 ^ 53)
        rw [Nat.mul_right_comm]
        exact h
      have hquotient : m / 2 ^ j = 2 ^ 53 := by
        rw [Nat.div_eq_iff (Nat.two_pow_pos j)]
        constructor <;> omega
      have hbit : (dropped m (j + 1)).roundBit = false := by
        rw [roundBit_dropped_succ, hquotient]
        decide
      rw [nearest, roundedMantissa_of_roundBit hbit, mantissa_dropped, Nat.pow_succ,
        ← Nat.div_div_eq_div_mul, hquotient]
      decide

end Bits

/-! ### Rounding -/

theorem targetExponent_eq (m : Nat) (e : Int) :
    Format.binary64.targetExponent (totalExponent m e) = max (m.log2 + 1 + e - 53) (-1074) := rfl

theorem nearest_le_of_target {m k : Nat} {e : Int}
    (hk : Format.binary64.targetExponent (totalExponent m e) = e + k) :
    nearest m k ≤ 2 ^ 53 := by
  rw [targetExponent_eq] at hk
  apply nearest_le_of_lt
  refine Nat.lt_of_lt_of_le Nat.lt_log2_self (Nat.pow_le_pow_right (by decide) ?_)
  omega

theorem full_of_target {m k : Nat} {e : Int} (hm : 0 < m)
    (hk : Format.binary64.targetExponent (totalExponent m e) = e + k) :
    e + k = -1074 ∨ 2 ^ 52 ≤ nearest m k := by
  rw [targetExponent_eq] at hk
  by_cases hleast : e + (k : Int) = -1074
  · exact Or.inl hleast
  · right
    have hlog : m.log2 = 52 + k := by omega
    refine Nat.le_trans ?_ (div_le_nearest m k)
    rw [Nat.le_div_iff_mul_le (Nat.two_pow_pos k), ← Nat.pow_add, ← hlog]
    exact Nat.log2_self_le (by omega)

theorem roundWithAccuracy_eq (s : Sign) {m k k' : Nat} {e : Int}
    (hk : Format.binary64.targetExponent (totalExponent m e) = e + k)
    (hk' : Format.binary64.targetExponent (totalExponent (nearest m k) (e + k)) = e + k + k') :
    UnpackedFloat.roundWithAccuracy .binary64 s m e .exact =
      if h : nearest m k / 2 ^ k' = 0 then .zero s
      else .finite s (nearest m k / 2 ^ k') (e + k + k') (Nat.pos_of_ne_zero h) := by
  have hshift : (Format.binary64.targetExponent (totalExponent m e) - e).toNat = k := by omega
  have hshift' : (Format.binary64.targetExponent (totalExponent (nearest m k) (e + k)) -
      (e + k)).toNat = k' := by omega
  have heq : UnpackedFloat.roundWithAccuracy .binary64 s m e .exact =
      if h : (dropped (nearest m k) k').mantissa = 0 then .zero s
      else .finite s (dropped (nearest m k) k').mantissa (e + k + k')
        (Nat.pos_of_ne_zero h) := by
    subst hshift hshift'
    rfl
  simpa only [mantissa_dropped] using heq

theorem target_of_canonical {r : Nat} {e : Int} (hr : 0 < r) (hc : Canonical r e) :
    Format.binary64.targetExponent (totalExponent r e) = e := by
  obtain ⟨hlt, hleast, hfull⟩ := hc
  have hlog : r.log2 < 53 := (Nat.log2_lt hr.ne').mpr hlt
  rw [targetExponent_eq]
  rcases hfull with rfl | hfull
  · omega
  · have hlow : 52 ≤ r.log2 := (Nat.le_log2 hr.ne').mpr hfull
    omega

/-- Rounding yields the significand that is nearest, and the exponent that goes with it. -/
theorem roundWithAccuracy_spec (s : Sign) {m k : Nat} {e : Int} (hm : 0 < m)
    (hk : Format.binary64.targetExponent (totalExponent m e) = e + k) :
    nearest m k = 0 ∧ UnpackedFloat.roundWithAccuracy .binary64 s m e .exact = .zero s ∨
      ∃ m' e' h, UnpackedFloat.roundWithAccuracy .binary64 s m e .exact = .finite s m' e' h ∧
        Canonical m' e' ∧ (m' : ℚ) * 2 ^ e' = nearest m k * 2 ^ (e + k) := by
  have hle := nearest_le_of_target hk
  have hfull := full_of_target hm hk
  have hleast : -1074 ≤ e + (k : Int) := by
    rw [← hk, targetExponent_eq]
    omega
  rcases Nat.eq_zero_or_pos (nearest m k) with hzero | hpos
  · left
    have hagain : Format.binary64.targetExponent (totalExponent (nearest m k) (e + k)) =
        e + k + (0 : Nat) := by
      rw [targetExponent_eq, hzero]
      simp
      omega
    refine ⟨hzero, ?_⟩
    rw [roundWithAccuracy_eq s hk hagain, dif_pos (by simp [hzero])]
  · right
    rcases hle.lt_or_eq with hlt | htop
    · have hc : Canonical (nearest m k) (e + k) := ⟨hlt, hleast, hfull⟩
      have hagain : Format.binary64.targetExponent (totalExponent (nearest m k) (e + k)) =
          e + k + (0 : Nat) := by simpa using target_of_canonical hpos hc
      refine ⟨nearest m k, e + k, hpos, ?_, hc, rfl⟩
      rw [roundWithAccuracy_eq s hk hagain, dif_neg (by simpa using hpos.ne')]
      exact finite_congr (by simp) (by simp)
    · -- one bit too many, and no other bit is set
      have hagain : Format.binary64.targetExponent (totalExponent (nearest m k) (e + k)) =
          e + k + (1 : Nat) := by
        rw [targetExponent_eq, htop, Nat.log2_two_pow]
        omega
      refine ⟨2 ^ 52, e + k + 1, by decide, ?_, ⟨by decide, by omega, Or.inr (by decide)⟩, ?_⟩
      · rw [roundWithAccuracy_eq s hk hagain, dif_neg (by simp [htop])]
        exact finite_congr (by simp [htop]) rfl
      · rw [htop, zpow_add_one₀ (by norm_num)]
        push_cast
        ring

theorem two_pow_split {N d : Nat} {e : Int} (h : (N : Int) = d + e) :
    (2 : ℚ) ^ N = 2 ^ d * 2 ^ e := by
  rw [← zpow_natCast, ← zpow_natCast, h, zpow_add₀ (by norm_num)]

theorem log2_add_le {m N : Nat} {e : Int} (hm : 0 < m)
    (h : (m * 2 ^ e : ℚ) * 2 ^ 53 < 2 ^ N * (2 ^ 53 + 1)) : m.log2 + e ≤ N := by
  have htwo : (1 : ℚ) < 2 := by norm_num
  have hlow : (2 : ℚ) ^ (m.log2 + e : Int) ≤ m * 2 ^ e := by
    rw [zpow_add₀ (by norm_num), zpow_natCast]
    have hlog : (2 : ℚ) ^ m.log2 ≤ m := by exact_mod_cast Nat.log2_self_le hm.ne'
    exact mul_le_mul_of_nonneg_right hlog (zpow_pos (by norm_num) e).le
  have hhigh : (m * 2 ^ e : ℚ) < 2 ^ (N + 1 : Int) := by
    rw [zpow_add_one₀ (by norm_num), zpow_natCast]
    have hpos : (0 : ℚ) < 2 ^ N := by positivity
    linarith
  have hlt := (zpow_lt_zpow_iff_right₀ htwo).mp (hlow.trans_lt hhigh)
  omega

theorem nearest_mul_le {m k N : Nat} {e : Int} (hm : 0 < m)
    (hk : Format.binary64.targetExponent (totalExponent m e) = e + k)
    (h : (m * 2 ^ e : ℚ) * 2 ^ 53 < 2 ^ N * (2 ^ 53 + 1)) :
    (nearest m k : ℚ) * 2 ^ (e + k) ≤ 2 ^ N := by
  have hlog := log2_add_le hm h
  rw [targetExponent_eq] at hk
  obtain ⟨d, hd, hnearest⟩ : ∃ d : Nat, (N : Int) = d + (e + k) ∧ nearest m k ≤ 2 ^ d := by
    rcases hlog.lt_or_eq with hlt | htop
    · refine ⟨(N - (e + k)).toNat, by omega, nearest_le_of_lt ?_⟩
      refine Nat.lt_of_lt_of_le Nat.lt_log2_self (Nat.pow_le_pow_right (by decide) ?_)
      omega
    · -- the leading bit is that of the power, and the others are too low to matter
      refine ⟨52, by omega, nearest_le_of_lt_half ?_⟩
      have hpow : (2 : ℚ) ^ N = 2 ^ (52 + k) * 2 ^ e := two_pow_split (by omega)
      have hpos : (0 : ℚ) < 2 ^ e := zpow_pos (by norm_num) e
      rw [hpow] at h
      have hcancel : (m * 2 ^ 53 : ℚ) < 2 ^ (52 + k) * (2 ^ 53 + 1) := by
        apply lt_of_mul_lt_mul_right (a := (2 : ℚ) ^ e) ?_ hpos.le
        linarith
      exact_mod_cast hcancel
  calc
    (nearest m k : ℚ) * 2 ^ (e + k) ≤ 2 ^ d * 2 ^ (e + k) := by
      have hnearest' : (nearest m k : ℚ) ≤ 2 ^ d := by exact_mod_cast hnearest
      exact mul_le_mul_of_nonneg_right hnearest' (zpow_pos (by norm_num) _).le
    _ = 2 ^ N := (two_pow_split hd).symm

/-- What a number is rounded to: to zero only if it is less than any float is, and not past a
power of two. -/
inductive Rounded (q : ℚ) : UnpackedFloat → Prop
  | zero (s : Sign) (hsmall : |q| < 2 ^ (-1074 : Int)) : Rounded q (.zero s)
  | finite {s : Sign} {m : Nat} {e : Int} {h : 0 < m} (hc : Canonical m e)
    (hsign : s = .negative ↔ q < 0)
    (hle : ∀ N : Nat, |q| * 2 ^ 53 < 2 ^ N * (2 ^ 53 + 1) → (m : ℚ) * 2 ^ e ≤ 2 ^ N) :
    Rounded q (.finite s m e h)

theorem abs_apply_mul (s : Sign) (m : Nat) (e : Int) : |(s.apply m * 2 ^ e : ℚ)| = m * 2 ^ e := by
  have hpos : (0 : ℚ) ≤ m * 2 ^ e := by positivity
  cases s <;> simp [Sign.apply, abs_of_nonneg hpos]

theorem apply_mul_neg_iff (s : Sign) {m : Nat} (hm : 0 < m) (e : Int) :
    (s.apply m * 2 ^ e : ℚ) < 0 ↔ s = .negative := by
  have hpos := magnitude_pos hm e
  cases s <;> simp [Sign.apply, hpos, hpos.le]

theorem rounded_roundWithAccuracy (s : Sign) {m : Nat} {e : Int} (hm : 0 < m)
    (he : e ≤ Format.binary64.targetExponent (totalExponent m e)) :
    Rounded (s.apply m * 2 ^ e) (UnpackedFloat.roundWithAccuracy .binary64 s m e .exact) := by
  obtain ⟨k, hk⟩ := Int.le.dest he
  obtain ⟨hzero, hround⟩ | ⟨m', e', h, hround, hc, hvalue⟩ := roundWithAccuracy_spec s hm hk.symm
  · have hleast : e + (k : Int) = -1074 := by
      have hfull := full_of_target hm hk.symm
      omega
    have hlt : m < 2 ^ k := by
      have hdiv := div_le_nearest m k
      rw [hzero, Nat.le_zero] at hdiv
      exact (Nat.div_eq_zero_iff.mp hdiv).resolve_left (Nat.two_pow_pos k).ne'
    have hlt' : (m : ℚ) < 2 ^ k := by exact_mod_cast hlt
    rw [hround]
    apply Rounded.zero
    rw [abs_apply_mul]
    calc
      (m : ℚ) * 2 ^ e < 2 ^ k * 2 ^ e := mul_lt_mul_of_pos_right hlt' (zpow_pos (by norm_num) e)
      _ = 2 ^ (-1074 : Int) := by
        rw [← hleast, zpow_add₀ (by norm_num), zpow_natCast, mul_comm]
  · rw [hround]
    refine Rounded.finite hc (apply_mul_neg_iff s hm e).symm ?_
    intro N hN
    rw [abs_apply_mul] at hN
    rw [hvalue]
    exact nearest_mul_le hm hk.symm hN

/-! ### Shifting -/

theorem log2_shiftLeft {m : Nat} (hm : 0 < m) (n : Nat) : (m <<< n).log2 = m.log2 + n := by
  induction n with
  | zero => rfl
  | succ n ih =>
    have hne : m <<< n ≠ 0 := by simp [Nat.shiftLeft_eq, hm.ne']
    rw [Nat.shiftLeft_succ, Nat.log2_two_mul hne, ih, Nat.add_assoc]

theorem shiftLeft_mul (m n : Nat) (e : Int) :
    ((m <<< n : Nat) : ℚ) * 2 ^ (e - n) = m * 2 ^ e := by
  rw [Nat.shiftLeft_eq, zpow_sub₀ (by norm_num), zpow_natCast]
  push_cast
  field_simp

theorem apply_shiftLeft_mul (s : Sign) (m n : Nat) (e : Int) :
    ((s.apply (m <<< n : Nat) : Int) : ℚ) * 2 ^ (e - n) = s.apply m * 2 ^ e := by
  have hshift := shiftLeft_mul m n e
  cases s with
  | negative =>
    simp only [Sign.apply, Int.cast_neg, Int.cast_natCast, neg_mul, hshift]
  | positive => exact_mod_cast hshift

theorem rounded_round (s : Sign) {m : Nat} (hm : 0 < m) (e : Int) :
    Rounded (s.apply m * 2 ^ e) (UnpackedFloat.round .binary64 s m e) := by
  generalize hn : (e - Format.binary64.targetExponent (totalExponent m e)).toNat = n
  have hround : UnpackedFloat.round .binary64 s m e =
      UnpackedFloat.roundWithAccuracy .binary64 s (m <<< n) (e - n) .exact := by
    subst hn
    rfl
  have htotal : totalExponent (m <<< n) (e - n) = totalExponent m e := by
    rw [totalExponent, totalExponent, log2_shiftLeft hm]
    omega
  rw [hround, ← apply_shiftLeft_mul s m n e]
  apply rounded_roundWithAccuracy
  · simp [Nat.shiftLeft_eq, hm]
  · rw [htotal]
    omega

theorem rounded_normalize (n e : Int) (s : Sign) :
    Rounded (n * 2 ^ e) (UnpackedFloat.normalize .binary64 n e s) := by
  rw [UnpackedFloat.normalize]
  rcases lt_trichotomy n 0 with h | rfl | h
  · rw [compare_lt_iff_lt.mpr h]
    have hneg : n = Sign.apply .negative ((-n).toNat : Int) := by
      rw [Sign.apply]
      omega
    have hround := rounded_round .negative (m := (-n).toNat) (by omega) e
    rwa [← hneg] at hround
  · exact Rounded.zero s (by norm_num)
  · rw [compare_gt_iff_gt.mpr h]
    have hpos : n = Sign.apply .positive (n.toNat : Int) := by
      rw [Sign.apply]
      omega
    have hround := rounded_round .positive (m := n.toNat) (by omega) e
    rwa [← hpos] at hround

end PathPolicy.Double
