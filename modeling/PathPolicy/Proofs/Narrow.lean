import PathPolicy.Proofs.Shortest

/-!
Rounding to single precision gives the number in whose interval the double-precision number lies.
-/
namespace PathPolicy
open Float.Model Decimal
open UnpackedFloat (Sign)

/-! ### Single-precision numbers -/

theorem representable_of_unpack {x : Float32} {s : Sign} {m : Nat} {e : Int} {h : 0 < m}
    (hx : x.toModel.unpack = .finite s m e h) : Representable .binary32 m e ∧ e ≤ 104 := by
  simp only [Float32.Model.unpack, UnpackedFloat.unpack] at hx
  have hfraction := (@UnpackedFloat.unpackMantissa .binary32 x.toModel.toBits.toBitVec).isLt
  have hexponent := (@UnpackedFloat.unpackExponent .binary32 x.toModel.toBits.toBitVec).isLt
  have hleast : Format.binary32.minExponent = -149 := rfl
  have hoffset : (Format.binary32.exponentBias : Int)
      + Format.binary32.mantissaBitsWithoutImplicit = 150 := rfl
  split at hx
  · split at hx <;> cases hx
  next hspecial =>
    split at hx
    · split at hx
      · cases hx
      next hzero _ =>
        have hzero' := congrArg BitVec.toNat hzero
        cases hx
        refine ⟨⟨?_, ?_, ?_⟩, ?_⟩
        · exact hfraction.trans (by decide)
        · simp at *
          omega
        · simp at *
          omega
        · simp at *
          omega
    next hnormal =>
      have hpos := mt BitVec.eq_of_toNat_eq hnormal
      have hlast := mt BitVec.eq_of_toNat_eq hspecial
      cases hx
      have happend : (1#1 ++ @UnpackedFloat.unpackMantissa .binary32
          x.toModel.toBits.toBitVec).toNat
            = 2 ^ 23 + (@UnpackedFloat.unpackMantissa .binary32 x.toModel.toBits.toBitVec).toNat := by
        rw [BitVec.toNat_append, ← Nat.shiftLeft_add_eq_or_of_lt (BitVec.isLt _)]
        rfl
      have hbits : 2 ^ Format.binary32.mantissaBits = 2 ^ 24 := rfl
      refine ⟨⟨?_, ?_, ?_⟩, ?_⟩
      · rw [happend, hbits]
        simp at *
        omega
      · simp at *
        omega
      · rw [happend, hbits]
        simp at *
        omega
      · simp at *
        omega

theorem Single.pack_unpack (x : Float32) : Float32.ofModel (.pack x.toModel.unpack) = x := by
  obtain ⟨⟨bits, valid⟩⟩ := x
  have hbits := UnpackedFloat.pack_unpack_of_valid valid
  rw [Float32.Model.unpack, Float32.Model.pack]
  simp only [hbits]

/-! ### The interval of a number -/

theorem target_single (m : Nat) (e : Int) :
    Format.binary32.targetExponent (totalExponent m e) = max (m.log2 + 1 + e - 24) (-149) := rfl

variable {w m : Nat} {t e : Int}

theorem around_bounds {k : Nat} (hk : e = t + k)
    (h : (Interval.around .binary32 m e).Contains (w * 2 ^ t)) :
    (Interval.around .binary32 m e).low * 2 ^ k ≤ 4 * w ∧ 4 * w ≤ (4 * m + 2) * 2 ^ k ∧
      (m % 2 = 1 → (Interval.around .binary32 m e).low * 2 ^ k < 4 * w ∧
        4 * w < (4 * m + 2) * 2 ^ k) := by
  have hquarter : (0 : ℚ) < 2 ^ (t - 2) := zpow_pos (by norm_num) _
  have hunit : (2 : ℚ) ^ (e - 2) = 2 ^ k * 2 ^ (t - 2) := by
    rw [hk, ← zpow_natCast, ← zpow_add₀ (by norm_num)]
    congr 1
    ring
  have hvalue : (w * 2 ^ t : ℚ) = 4 * w * 2 ^ (t - 2) := by
    rw [(quarters t).2]
    ring
  have hexponent : (Interval.around .binary32 m e).exponent = e - 2 := rfl
  have hhigh : (Interval.around .binary32 m e).high = 4 * m + 2 := rfl
  have hclosed : (Interval.around .binary32 m e).closed = decide (m % 2 = 0) := rfl
  rw [Interval.Contains, hexponent, hhigh, hclosed, hvalue, hunit, ← mul_assoc, ← mul_assoc] at h
  split at h
  next heven =>
    rw [mul_le_mul_iff_left₀ hquarter, mul_le_mul_iff_left₀ hquarter] at h
    refine ⟨by exact_mod_cast h.1, by exact_mod_cast h.2, fun hodd => ?_⟩
    rw [decide_eq_true_eq] at heven
    omega
  next =>
    rw [mul_lt_mul_iff_left₀ hquarter, mul_lt_mul_iff_left₀ hquarter] at h
    have hlow : (Interval.around .binary32 m e).low * 2 ^ k < 4 * w := by exact_mod_cast h.1
    have hhigh : 4 * w < (4 * m + 2) * 2 ^ k := by exact_mod_cast h.2
    exact ⟨hlow.le, hhigh.le, fun _ => ⟨hlow, hhigh⟩⟩

theorem low_around (m : Nat) (e : Int) : (Interval.around .binary32 m e).low
    = if m = 2 ^ 23 ∧ -149 < e then 4 * m - 1 else 4 * m - 2 := by
  change 4 * m - (if m = 2 ^ 23 ∧ -149 < e then 1 else 2) = _
  split <;> rfl

/-! ### Rounding -/

theorem round_single_eq (s : Sign) (h : t ≤ Format.binary32.targetExponent (totalExponent w t)) :
    UnpackedFloat.round .binary32 s w t
      = UnpackedFloat.roundWithAccuracy .binary32 s (w / 1) t
          (UnpackedFloat.accuracyOfFraction (w % 1) 1) := by
  have hshift : (t - Format.binary32.targetExponent (totalExponent w t)).toNat = 0 := by omega
  rw [UnpackedFloat.round, UnpackedFloat.decreaseExponent, hshift, Nat.div_one, Nat.mod_one]
  exact congrArg (fun e => UnpackedFloat.roundWithAccuracy .binary32 s w e .exact) (Int.sub_zero t)

theorem target_le_of_contains (hw : 0 < w) (hrep : Representable .binary32 m e)
    (h : (Interval.around .binary32 m e).Contains (w * 2 ^ t)) :
    Format.binary32.targetExponent (totalExponent w t) ≤ e := by
  have hlt : m < 2 ^ 24 := hrep.lt
  have hleast : -149 ≤ e := hrep.least_le
  have hlog : (2 : ℚ) ^ (w.log2 + t : Int) < 2 ^ (e + 24) := by
    calc
      (2 : ℚ) ^ (w.log2 + t : Int) = 2 ^ w.log2 * 2 ^ t := by
        rw [zpow_add₀ (by norm_num), zpow_natCast]
      _ ≤ w * 2 ^ t := by
        have hw' : (2 : ℚ) ^ w.log2 ≤ w := by exact_mod_cast Nat.log2_self_le hw.ne'
        exact mul_le_mul_of_nonneg_right hw' (zpow_pos (by norm_num) t).le
      _ ≤ (4 * m + 2 : Nat) * 2 ^ (e - 2) := h.bounds.2
      _ < 2 ^ 26 * 2 ^ (e - 2) := by
        have hm' : ((4 * m + 2 : Nat) : ℚ) < 2 ^ 26 := by exact_mod_cast (by omega)
        exact mul_lt_mul_of_pos_right hm' (zpow_pos (by norm_num) _)
      _ = 2 ^ (e + 24) := by
        rw [← zpow_natCast, ← zpow_add₀ (by norm_num)]
        congr 1
        push_cast
        ring
  have := (zpow_lt_zpow_iff_right₀ (by norm_num)).mp hlog
  rw [target_single]
  omega

theorem below_power {k d : Nat} (hw : w < 2 ^ 24 * 2 ^ k) (hrep : Representable .binary32 m e)
    (he : -149 < e) (hd : 0 < d)
    (h : (Interval.around .binary32 m e).low * 2 ^ (k + d) ≤ 4 * w) :
    m = 2 ^ 23 ∧ d = 1 ∧ nearestWhole w (1 * 2 ^ k) = 2 ^ 24 := by
  have hm : 2 ^ 23 ≤ m := by
    have hfull := hrep.full
    have hleast : Format.binary32.minExponent = -149 := rfl
    have hbits : 2 ^ Format.binary32.mantissaBits = 2 ^ 24 := rfl
    omega
  have hlow : (Interval.around .binary32 m e).low * 2 ^ d < 2 ^ 26 := by
    refine Nat.lt_of_mul_lt_mul_right (a := 2 ^ k) ?_
    rw [Nat.pow_add] at h
    linarith
  have htwo : 2 ^ 1 ≤ 2 ^ d := Nat.pow_le_pow_right (show 0 < 2 by decide) hd
  rw [low_around] at h hlow
  -- only an interval below a power of two reaches numbers of a lower exponent
  have hm23 : m = 2 ^ 23 := by
    by_contra hne
    rw [if_neg (by omega)] at hlow
    have := Nat.mul_le_mul_left (4 * m - 2) htwo
    omega
  rw [if_pos ⟨hm23, he⟩, hm23] at h hlow
  have hone : d = 1 := by
    by_contra hne
    have hfour : 2 ^ 2 ≤ 2 ^ d := Nat.pow_le_pow_right (show 0 < 2 by decide) (by omega)
    have := Nat.mul_le_mul_left (4 * 2 ^ 23 - 1) hfour
    omega
  subst hone
  rw [Nat.pow_succ] at h
  refine ⟨hm23, rfl, nearestWhole_eq (Nat.mul_pos Nat.one_pos (Nat.two_pow_pos k)) ?_ ?_ ?_⟩ <;> omega

/-- A double-precision number is narrowed to the number in whose interval it lies. -/
theorem round_single (s : Sign) (hw : 0 < w) (hc : Double.Canonical w t) (hm : 0 < m)
    (hrep : Representable .binary32 m e)
    (h : (Interval.around .binary32 m e).Contains (w * 2 ^ t)) :
    UnpackedFloat.round .binary32 s w t = .finite s m e hm := by
  have htarget : t ≤ Format.binary32.targetExponent (totalExponent w t) := by
    rw [target_single]
    rcases hc.full with ht | hfull
    · omega
    · have := (Nat.le_log2 hw.ne').mpr hfull
      omega
  obtain ⟨k, hk⟩ := Int.le.dest htarget
  obtain ⟨d, hd⟩ := Int.le.dest (target_le_of_contains hw hrep h)
  rw [← hk] at hd
  have hbounds := around_bounds (k := k + d) (by push_cast; omega) h
  have hk' : Format.binary32.targetExponent (totalExponent (w / 1) t) = t + k := by
    rw [Nat.div_one, hk]
  rw [round_single_eq s htarget]
  -- the exponents agree, unless the number lies just below a power of two
  rcases Nat.eq_zero_or_pos d with rfl | hpos
  · rw [Nat.add_zero] at hbounds
    obtain ⟨hlow, hhigh, hodd⟩ := hbounds
    have hlow' : (4 * m - 2) * 2 ^ k ≤ (Interval.around .binary32 m e).low * 2 ^ k := by
      refine Nat.mul_le_mul_right _ ?_
      rw [low_around]
      split <;> omega
    have hsplit : (4 * m - 2) * 2 ^ k + 2 * 2 ^ k = 4 * (m * 2 ^ k) := by
      rw [← Nat.add_mul, Nat.sub_add_cancel (by omega)]
      ring
    rw [Nat.add_mul] at hhigh hodd
    rw [Nat.mul_assoc] at hhigh hodd
    have hnearest : nearestWhole w (1 * 2 ^ k) = m := by
      rw [Nat.one_mul]
      refine nearestWhole_eq (Nat.two_pow_pos k) (by omega) (by omega) fun h => ?_
      have := hodd h
      omega
    have hexponent : t + k = e := by omega
    rw [round_of_representable Nat.one_pos hk' (by rw [hnearest]; exact hm)
      (by rwa [hnearest, hexponent])]
    exact Double.finite_congr hnearest hexponent
  · have hlt : w < 2 ^ 24 * 2 ^ k := by
      rw [← Nat.pow_add]
      refine Nat.lt_of_lt_of_le Nat.lt_log2_self (Nat.pow_le_pow_right (by decide) ?_)
      rw [target_single] at hk
      omega
    have hleast : -149 ≤ t + k := by
      rw [hk, target_single]
      omega
    obtain ⟨rfl, rfl, hnearest⟩ := below_power hlt hrep (by omega) hpos hbounds.1
    rw [round_of_top Nat.one_pos hk' hnearest hleast]
    exact Double.finite_congr rfl hd

end PathPolicy
