import PathPolicy.Proofs.Json.Readback
import PathPolicy.Proofs.Json.Single

/-!
The text of a finite single-precision number reads back. Wherever its layout puts the point, the
numeral stands for the shortest digits and their power of ten, and what is read for these is rounded
to the number again.
-/
namespace PathPolicy.Json
open Decimal Double Float.Model
open UnpackedFloat (Sign)

/-! ### Values of numerals -/

theorem ofDigits_zeros (n k : Nat) : ofDigits n (List.replicate k 0) = n * 10 ^ k := by
  induction k generalizing n with
  | zero => simp [ofDigits]
  | succ k ih =>
    rw [List.replicate_succ, ofDigits, List.foldl_cons, ← ofDigits, ih, Nat.pow_succ]
    ring

theorem ofDigits_lt {ds : List Nat} (h : ∀ d ∈ ds, d < 10) (n : Nat) :
    ofDigits n ds < (n + 1) * 10 ^ ds.length := by
  induction ds generalizing n with
  | nil => simp [ofDigits]
  | cons d ds ih =>
    have hd := h d List.mem_cons_self
    rw [ofDigits, List.foldl_cons, ← ofDigits, List.length_cons, Nat.pow_succ]
    calc
      ofDigits (10 * n + d) ds < (10 * n + d + 1) * 10 ^ ds.length :=
        ih (fun d hd => h d (List.mem_cons_of_mem _ hd)) _
      _ ≤ 10 * (n + 1) * 10 ^ ds.length := Nat.mul_le_mul_right _ (by omega)
      _ = (n + 1) * (10 ^ ds.length * 10) := by ring

theorem lt_pow_length_digits (n : Nat) : n < 10 ^ (digits n).length := by
  have hlt := ofDigits_lt (fun _ => lt_of_mem_digits (n := n)) 0
  rwa [ofDigits_digits, Nat.zero_add, Nat.one_mul] at hlt

theorem exponentValue?_of_le {n : Nat} {ds : List Nat}
    (h : ofDigits n ds ≤ Int32.maxValue.toInt) : exponentValue? n ds = some (ofDigits n ds) := by
  induction ds generalizing n with
  | nil => rfl
  | cons d ds ih =>
    have hle : (10 * n + d : Int) ≤ Int32.maxValue.toInt := by
      refine le_trans ?_ h
      exact_mod_cast le_ofDigits (10 * n + d) ds
    rw [exponentValue?, if_pos (by exact_mod_cast hle)]
    exact ih h

variable {n : Numeral}

theorem value?_of_fraction (negative : Bool) (hexponent : n.exponent = none) (hne : n.fraction ≠ [])
    (hsize : ofDigits 0 (n.whole ++ n.fraction) < UInt64.size) :
    n.value? negative = (scale? (ofDigits 0 (n.whole ++ n.fraction)) (-n.fraction.length)).map
      fun v => .real (negated negative v) := by
  obtain ⟨whole, fraction, exponent⟩ := n
  obtain ⟨d, ds, rfl⟩ := List.exists_cons_of_ne_nil hne
  dsimp only at hexponent
  subst hexponent
  dsimp only at hsize ⊢
  rw [ofDigits_append] at hsize ⊢
  have hwhole := absorb_of_lt (Nat.lt_of_le_of_lt (le_ofDigits _ _) hsize)
  simp [Numeral.value?, hwhole, absorb_of_lt hsize]

theorem value?_of_power (negative : Bool) {below : Bool} {e : Nat}
    (hexponent : n.exponent = some (below, digits e)) (he : e ≤ Int32.maxValue.toInt)
    (hsize : ofDigits 0 (n.whole ++ n.fraction) < UInt64.size) :
    n.value? negative = (scale? (ofDigits 0 (n.whole ++ n.fraction))
      (if below then -n.fraction.length - e else -n.fraction.length + e)).map
      fun v => .real (negated negative v) := by
  obtain ⟨whole, fraction, exponent⟩ := n
  dsimp only at hexponent
  subst hexponent
  dsimp only at hsize ⊢
  rw [ofDigits_append] at hsize ⊢
  have hwhole := absorb_of_lt (Nat.lt_of_le_of_lt (le_ofDigits _ _) hsize)
  have hpower := @exponentValue?_of_le 0 (digits e) (by rwa [ofDigits_digits])
  rw [ofDigits_digits] at hpower
  simp [Numeral.value?, hwhole, absorb_of_lt hsize, hpower]

/-! ### The layouts -/

section Layouts
variable {ds : List Nat}

theorem value?_whole (negative : Bool) {k : Nat} (hsize : ofDigits 0 ds * 10 ^ k < 10 ^ 13) :
    (⟨ds ++ List.replicate k 0, [0], none⟩ : Numeral).value? negative
      = (scale? (ofDigits 0 ds * 10 ^ k * 10) (-1)).map fun v => .real (negated negative v) := by
  have hdigits : ofDigits 0 (ds ++ List.replicate k 0 ++ [0]) = ofDigits 0 ds * 10 ^ k * 10 := by
    rw [ofDigits_append, ofDigits_append, ofDigits_zeros]
    exact Nat.mul_comm 10 _
  rw [value?_of_fraction negative rfl (by simp)]
  · rw [hdigits]
    rfl
  · rw [hdigits]
    exact Nat.lt_of_lt_of_le (Nat.mul_lt_mul_of_pos_right hsize (by decide)) (by decide)

theorem value?_pointed (negative : Bool) {n : Nat} (hn : n < ds.length)
    (hsize : ofDigits 0 ds < UInt64.size) :
    (⟨ds.take n, ds.drop n, none⟩ : Numeral).value? negative
      = (scale? (ofDigits 0 ds) (n - ds.length)).map fun v => .real (negated negative v) := by
  rw [value?_of_fraction negative rfl]
  · rw [List.take_append_drop, List.length_drop]
    congr 2
    omega
  · rw [Ne, List.drop_eq_nil_iff]
    omega
  · rwa [List.take_append_drop]

theorem value?_leadingZeros (negative : Bool) (k : Nat) (hne : ds ≠ [])
    (hsize : ofDigits 0 ds < UInt64.size) :
    (⟨[0], List.replicate k 0 ++ ds, none⟩ : Numeral).value? negative
      = (scale? (ofDigits 0 ds) (-(k + ds.length))).map fun v => .real (negated negative v) := by
  have hdigits : ofDigits 0 ([0] ++ (List.replicate k 0 ++ ds)) = ofDigits 0 ds := by
    rw [ofDigits_append, ofDigits_append, ofDigits_zeros]
    exact congrArg (ofDigits · ds) (Nat.zero_mul _)
  rw [value?_of_fraction negative rfl (by simp [hne])]
  · rw [hdigits, List.length_append, List.length_replicate, Nat.cast_add]
  · rwa [hdigits]

theorem value?_scientific (negative : Bool) {point : Int} (hne : ds ≠ [])
    (hpoint : (point - 1).natAbs ≤ Int32.maxValue.toInt) (hsize : ofDigits 0 ds < UInt64.size) :
    (⟨ds.take 1, ds.drop 1, some (point < 1, digits (point - 1).natAbs)⟩ : Numeral).value? negative
      = (scale? (ofDigits 0 ds) (point - ds.length)).map fun v => .real (negated negative v) := by
  have hpos := List.length_pos_iff.mpr hne
  rw [value?_of_power negative rfl hpoint]
  · rw [List.take_append_drop, List.length_drop]
    congr 2
    simp only [decide_eq_true_eq]
    split <;> omega
  · rwa [List.take_append_drop]

end Layouts

variable {x : Scaled}

theorem value?_layOut (negative : Bool) (hx : x.digits < 2 ^ 29) (hlow : -50 ≤ x.exponent)
    (hhigh : x.exponent ≤ 50) :
    (layOut narrow x).value? negative =
        (scale? x.digits x.exponent).map (fun v => .real (negated negative v)) ∨
      0 ≤ x.exponent ∧ x.digits * 10 ^ x.exponent.toNat < 10 ^ 13 ∧
        (layOut narrow x).value? negative =
          (scale? (x.digits * 10 ^ x.exponent.toNat * 10) (-1)).map
            fun v => .real (negated negative v) := by
  have hsize : x.digits < UInt64.size := hx.trans (by decide)
  obtain ⟨ds, hds⟩ : ∃ ds, digits x.digits = ds := ⟨_, rfl⟩
  have hvalue : ofDigits 0 ds = x.digits := hds ▸ ofDigits_digits x.digits
  have hwide : narrow.wholeDigits = 13 := rfl
  have hmax : Int32.maxValue.toInt = 2147483647 := rfl
  have hne : ds ≠ [] := by
    obtain ⟨h, -⟩ | ⟨d, ds', h, -⟩ := digits_eq_cons x.digits <;> simp [← hds, h]
  have hlength : ds.length ≤ 9 := by
    rw [← hds, ← length_ofNat]
    exact (Nat.length_toDigits_le_iff (by decide) (by decide)).mpr (hx.trans (by decide))
  rw [layOut, hds, hwide]
  rw [← hvalue] at hsize ⊢
  -- whole, with the point inside, with zeros behind the point, and with an exponent
  split
  next hwhole =>
    have hlt : ofDigits 0 ds * 10 ^ x.exponent.toNat < 10 ^ 13 := by
      calc
        ofDigits 0 ds * 10 ^ x.exponent.toNat < 10 ^ ds.length * 10 ^ x.exponent.toNat :=
          Nat.mul_lt_mul_of_pos_right (hvalue ▸ hds ▸ lt_pow_length_digits x.digits) (by positivity)
        _ = 10 ^ (ds.length + x.exponent.toNat) := (Nat.pow_add _ _ _).symm
        _ ≤ 10 ^ 13 := Nat.pow_le_pow_right (by decide) (by omega)
    exact .inr ⟨hwhole.1, hlt, value?_whole negative hlt⟩
  left
  split
  next hpoint =>
    rw [value?_pointed negative (by omega) hsize]
    congr 2
    omega
  split
  next hzeros =>
    rw [value?_leadingZeros negative _ hne hsize]
    congr 2
    omega
  next =>
    rw [value?_scientific negative hne (by omega) hsize]
    congr 2
    omega

/-! ### The number that is read -/

variable {m : Nat} {e : Int} {v : Float} {q : ℚ}

theorem contains_whole (h : Shortest m e x) (hk : 0 ≤ x.exponent)
    (hlt : x.digits * 10 ^ x.exponent.toNat < 10 ^ 13)
    (hread : ReadAs (x.digits * 10 ^ x.exponent.toNat * 10) (-1) v q) :
    (Interval.around .binary32 m e).Contains q := by
  have hdecimal : ((x.digits * 10 ^ x.exponent.toNat * 10 : Nat) * 10 ^ (-1 : Int) : ℚ)
      = (x.digits * 10 ^ x.exponent.toNat : Nat) * 2 ^ (0 : Int) := by
    rw [Nat.cast_mul _ 10, Nat.cast_ofNat, zpow_neg_one, mul_inv_cancel_right₀ (by norm_num),
      zpow_zero, mul_one]
  have hnear := hread.near (by decide) (by decide)
  rw [hdecimal] at hnear
  rw [hnear.eq_of_short (hlt.trans (by decide)), zpow_zero, mul_one, Nat.cast_mul, Nat.cast_pow,
    ← zpow_natCast, Int.toNat_of_nonneg hk]
  exact h.contains

/-- What is read for the text of a positive number lies in the number's interval. -/
theorem exists_value (negative : Bool) (hm : 0 < m) (hrep : Representable .binary32 m e)
    (he : e ≤ 104) :
    ∃ v q, (layOut narrow (shortest .binary32 m e)).value? negative
        = some (.real (negated negative v)) ∧
      exact v = Extended.ofRat q ∧ (Interval.around .binary32 m e).Contains q := by
  have h := shortest_spec hm hrep he
  have hx := pos_digits_shortest .binary32 hm e
  generalize shortest .binary32 m e = x at h hx
  have hdigits := h.digits_lt hrep.lt
  have hlow := h.le_exponent hrep.least_le
  have hhigh := h.exponent_le hx hrep.lt he
  obtain hvalue | ⟨hk, hlt, hvalue⟩ := value?_layOut negative hdigits (by omega) (by omega)
  · obtain ⟨v, q, hread⟩ :=
      readAs_scale hx (hdigits.trans (by decide)) (show -50 ≤ x.exponent by omega) (by omega)
    exact ⟨v, q, by rw [hvalue, hread.read]; rfl, hread.value,
      contains_of_readAs hm hrep he hx h hread⟩
  · have hpos : 0 < x.digits * 10 ^ x.exponent.toNat := Nat.mul_pos hx (by positivity)
    obtain ⟨v, q, hread⟩ := readAs_scale (k := -1) (Nat.mul_pos hpos (by decide))
      (show x.digits * 10 ^ x.exponent.toNat * 10 < 2 ^ 53 by omega) (by decide) (by decide)
    exact ⟨v, q, by rw [hvalue, hread.read]; rfl, hread.value, contains_whole h hk hlt hread⟩

/-! ### Narrowing it -/

theorem unpack_negated (s : Sign) {w : Nat} {t : Int} {hw : 0 < w}
    (hu : v.toModel.unpack = .finite .positive w t hw) (ht : t ≤ 971) :
    (negated (isNegative s) v).toModel.unpack = .finite s w t hw := by
  cases s with
  | positive => exact hu
  | negative =>
    change (Float.Model.pack (UnpackedFloat.neg v.toModel.unpack)).unpack = _
    rw [hu]
    exact unpack_pack_finite hw (canonical_of_unpack hu) ht

theorem ofDouble_negated (s : Sign) (hm : 0 < m) (hrep : Representable .binary32 m e) (he : e ≤ 104)
    (hq : exact v = Extended.ofRat q) (h : (Interval.around .binary32 m e).Contains q) :
    Single.ofDouble (negated (isNegative s) v) = .ofModel (.pack (.finite s m e hm)) := by
  have hlow : 0 < (Interval.around .binary32 m e).low := by
    rw [low_around]
    split <;> omega
  have hpos : 0 < q := (magnitude_pos hlow _).trans_le h.bounds.1
  obtain ⟨w, t, hw, hu, rfl, hc⟩ := positive_of_exact hq hpos
  have hlarge : (w * 2 ^ t : ℚ) ≤ 2 ^ 128 := by
    refine h.bounds.2.trans ?_
    change ((4 * m + 2 : Nat) * 2 ^ (e - 2) : ℚ) ≤ _
    have hlt : m < 2 ^ 24 := hrep.lt
    have hm' : ((4 * m + 2 : Nat) : ℚ) ≤ 2 ^ 26 := by exact_mod_cast (by omega)
    calc
      ((4 * m + 2 : Nat) * 2 ^ (e - 2) : ℚ) ≤ 2 ^ 26 * 2 ^ (102 : Int) :=
        mul_le_mul hm' (zpow_le_zpow_right₀ (by norm_num) (by omega))
          (zpow_pos (by norm_num) _).le (by norm_num)
      _ = 2 ^ 128 := by norm_num
  rw [Single.ofDouble, unpack_negated s hu (exponent_le hc (by decide) hlarge), reround,
    round_single s hw hc hm hrep h]

/-! ### Reading back -/

theorem value?_numeral {y : Float32} (h : y.isFinite) :
    ∃ negative n v, numeral? y.toModel.unpack = some (negative, n) ∧
      n.value? negative = some (.real v) ∧ Single.ofDouble v = y := by
  have hsame := Single.pack_unpack y
  change y.toModel.unpack.isFinite = true at h
  cases hu : y.toModel.unpack with
  | notANumber | infinity s =>
    rw [hu] at h
    cases h
  | zero s =>
    rw [hu] at hsame
    refine ⟨isNegative s, ⟨[0], [0], none⟩, negated (isNegative s) 0, rfl, ?_, ?_⟩
    · cases s <;> rfl
    · rw [← hsame]
      cases s <;> rfl
  | finite s m e hm =>
    obtain ⟨hrep, he⟩ := representable_of_unpack hu
    obtain ⟨v, q, hvalue, hq, hcontains⟩ := exists_value (isNegative s) hm hrep he
    rw [hu] at hsame
    exact ⟨isNegative s, _, _, rfl, hvalue,
      (ofDouble_negated s hm hrep he hq hcontains).trans hsame⟩

theorem roundTrips_single {y : Float32} (h : y.isFinite) :
    Opens (Codable.write y) ∧ RoundTrips 0 y := by
  obtain ⟨negative, n, v, hnumeral, hvalue, hsame⟩ := value?_numeral h
  have hproper := proper_numeral hnumeral
  change Opens (writeFloat32 y) ∧ Takes single.read 0 (writeFloat32 y) y
  rw [writeFloat32_of_some hnumeral]
  exact ⟨opens_numeral hproper negative, takes_numeral hproper hvalue (congrArg Except.ok hsame)⟩

end PathPolicy.Json
