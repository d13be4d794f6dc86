import PathPolicy.Proofs.Narrow

/-!
Widening loses nothing. A single-precision number is a double-precision one with further bits that
are zero, and narrowing gives back what it was.
-/
namespace PathPolicy
open Float.Model Decimal
open UnpackedFloat (Sign)

variable {m n : Nat} {e : Int}

theorem roundWithAccuracy_representable {format : Format} (s : Sign) (hm : 0 < m)
    (h : Representable format m e) :
    UnpackedFloat.roundWithAccuracy format s m e .exact = .finite s m e hm := by
  have hnearest : nearestWhole m (1 * 2 ^ 0) = m :=
    nearestWhole_eq Nat.one_pos (by omega) (by omega) (by omega)
  have hk : format.targetExponent (totalExponent (m / 1) e) = e + (0 : Nat) := by
    rw [Nat.div_one, target_of_representable hm h, Nat.cast_zero, Int.add_zero]
  have hround := round_of_representable (s := s) Nat.one_pos hk (by rwa [hnearest])
    (by rwa [hnearest, Nat.cast_zero, Int.add_zero])
  rw [Nat.div_one, Nat.mod_one] at hround
  exact hround.trans (Double.finite_congr hnearest (Int.add_zero e))

theorem round_of_shifted {format : Format} (s : Sign) (hm : 0 < m)
    (h : Representable format (m <<< n) (e - n)) :
    ∃ hpos, UnpackedFloat.round format s m e = .finite s (m <<< n) (e - n) hpos := by
  have hpos : 0 < m <<< n := by simp [Nat.shiftLeft_eq, hm]
  have htotal : totalExponent (m <<< n) (e - n) = totalExponent m e := by
    rw [totalExponent, totalExponent, Double.log2_shiftLeft hm]
    omega
  have htarget : format.targetExponent (totalExponent m e) = e - n := by
    rw [← htotal, target_of_representable hpos h]
  have hshift : (e - format.targetExponent (totalExponent m e)).toNat = n := by omega
  have hround : UnpackedFloat.round format s m e
      = UnpackedFloat.roundWithAccuracy format s (m <<< n) (e - n) .exact := by
    rw [UnpackedFloat.round, UnpackedFloat.decreaseExponent, hshift]
  exact ⟨hpos, hround.trans (roundWithAccuracy_representable s hpos h)⟩

theorem contains_self (hm : 0 < m) (e : Int) :
    (Interval.around .binary32 m e).Contains (m * 2 ^ e) := by
  have hlow : (Interval.around .binary32 m e).low < 4 * m := by
    rw [low_around]
    split <;> omega
  have hpos : (0 : ℚ) < 2 ^ (e - 2) := zpow_pos (by norm_num) _
  have hvalue : (m * 2 ^ e : ℚ) = (4 * m : Nat) * 2 ^ (e - 2) := by
    rw [(quarters e).2]
    push_cast
    ring
  have hbelow : ((Interval.around .binary32 m e).low * 2 ^ (e - 2) : ℚ) < m * 2 ^ e := by
    rw [hvalue]
    exact mul_lt_mul_of_pos_right (by exact_mod_cast hlow) hpos
  have habove : (m * 2 ^ e : ℚ) < (4 * m + 2 : Nat) * 2 ^ (e - 2) := by
    rw [hvalue]
    exact mul_lt_mul_of_pos_right (by exact_mod_cast (by omega)) hpos
  rw [Interval.Contains]
  split
  · exact ⟨hbelow.le, habove.le⟩
  · exact ⟨hbelow, habove⟩

theorem exists_shift (hm : 0 < m) (hrep : Representable .binary32 m e) (he : e ≤ 104) :
    ∃ n : Nat, Double.Canonical (m <<< n) (e - n) ∧ e - n ≤ 971 := by
  have hlog : m.log2 < 24 := (Nat.log2_lt hm.ne').mpr hrep.lt
  have hleast : -149 ≤ e := hrep.least_le
  have hshifted : (m <<< (52 - m.log2)).log2 = 52 := by
    rw [Double.log2_shiftLeft hm]
    omega
  have hpos : m <<< (52 - m.log2) ≠ 0 := by simp [Nat.shiftLeft_eq, hm.ne']
  obtain ⟨hfull, hlt⟩ := (Nat.log2_eq_iff hpos).mp hshifted
  exact ⟨52 - m.log2, ⟨hlt, by omega, .inr hfull⟩, by omega⟩

/-- Narrowing takes a widened number back, infinities and what is no number included. -/
theorem Single.ofDouble_ofSingle (x : Float32) : Single.ofDouble (Double.ofSingle x) = x := by
  have hsame := Single.pack_unpack x
  rw [Single.ofDouble, Double.ofSingle]
  cases hu : x.toModel.unpack with
  | notANumber =>
    rw [hu] at hsame
    exact hsame
  | infinity s =>
    rw [hu] at hsame
    simpa only [reround, Double.unpack_pack_infinity] using hsame
  | zero s =>
    rw [hu] at hsame
    simpa only [reround, Double.unpack_pack_zero] using hsame
  | finite s m e hm =>
    rw [hu] at hsame
    obtain ⟨hrep, he⟩ := representable_of_unpack hu
    obtain ⟨n, hcanonical, htop⟩ := exists_shift hm hrep he
    have hwide : Representable .binary64 (m <<< n) (e - n) := by
      refine ⟨hcanonical.lt, hcanonical.least_le, ?_⟩
      rcases hcanonical.full with hleast | hfull
      · exact .inl hleast
      · exact .inr (Nat.mul_le_mul_left 2 hfull)
    obtain ⟨hpos, hround⟩ := round_of_shifted s hm hwide
    have hcontains := contains_self hm e
    rw [← Double.shiftLeft_mul m n e] at hcontains
    simp only [reround, hround, Double.unpack_pack_finite hpos hcanonical htop,
      round_single s hpos hcanonical hm hrep hcontains]
    exact hsame

end PathPolicy
