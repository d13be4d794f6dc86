import PathPolicy.Proofs.Nearest

/-!
Products and quotients in double precision are near the exact ones: they are wrong by at most half
of what the last of 53 bits stands for, and not at all where 53 bits suffice.
-/
namespace PathPolicy.Double
open Float.Model
open UnpackedFloat (Sign accuracyOfFraction)

/-- At most half of the last place away from a number that fills 53 bits. -/
def Near (q v : ℚ) : Prop :=
  ∃ (w : Nat) (t : Int), v = w * 2 ^ t ∧ 2 ^ (t + 52) ≤ q ∧ |v - q| ≤ 2 ^ t / 2

theorem Near.error {q v : ℚ} (h : Near q v) : |v - q| ≤ q / 2 ^ 53 := by
  obtain ⟨w, t, -, hfull, hhalf⟩ := h
  rw [zpow_add₀ (by norm_num)] at hfull
  refine hhalf.trans ?_
  rw [div_le_div_iff₀ (by norm_num) (by norm_num)]
  have hcast : (2 : ℚ) ^ (52 : Int) = 2 ^ 52 := by norm_num
  rw [hcast] at hfull
  linarith

theorem Near.eq_of_short {m : Nat} {e : Int} {v : ℚ} (h : Near (m * 2 ^ e) v) (hm : m < 2 ^ 53) :
    v = m * 2 ^ e := by
  obtain ⟨w, t, rfl, hfull, hhalf⟩ := h
  have hpow : (0 : ℚ) < 2 ^ t := zpow_pos (by norm_num) t
  have hte : t ≤ e := by
    have hlt : (2 : ℚ) ^ (t + 52) < 2 ^ (53 + e) := by
      refine hfull.trans_lt ?_
      rw [zpow_add₀ (by norm_num)]
      have hm' : (m : ℚ) < 2 ^ (53 : Int) := by exact_mod_cast hm
      exact mul_lt_mul_of_pos_right hm' (zpow_pos (by norm_num) e)
    have := (zpow_lt_zpow_iff_right₀ (by norm_num : (1 : ℚ) < 2)).mp hlt
    omega
  obtain ⟨d, rfl⟩ := Int.le.dest hte
  -- both are whole multiples of the last place
  have hmultiple : (m : ℚ) * 2 ^ (t + d : Int) = (m * 2 ^ d : Nat) * 2 ^ t := by
    rw [zpow_add₀ (by norm_num), zpow_natCast]
    push_cast
    ring
  rw [hmultiple] at hhalf ⊢
  rw [← sub_mul, abs_mul, abs_of_pos hpow] at hhalf
  have hclose : |((w : ℤ) - (m * 2 ^ d : Nat) : ℤ)| < 1 := by
    have hclose' : |((w : ℚ) - (m * 2 ^ d : Nat))| < 1 := by
      by_contra hfar
      nlinarith
    exact_mod_cast hclose'
  have hw : w = m * 2 ^ d := by
    rw [Int.abs_lt_one_iff] at hclose
    omega
  rw [hw]

/-! ### Rounding -/

variable {a b k : Nat} {e : Int}

theorem abs_nearestWhole_sub_le (hb : 0 < b) : |(nearestWhole a b : ℚ) - a / b| ≤ 1 / 2 := by
  obtain ⟨hlow, hhigh⟩ := nearestWhole_bounds (a := a) hb
  have hb' : (0 : ℚ) < b := by exact_mod_cast hb
  have hlow' : (2 * (nearestWhole a b * b) : ℚ) ≤ 2 * a + b := by exact_mod_cast hlow
  have hhigh' : (2 * a : ℚ) ≤ 2 * (nearestWhole a b * b) + b := by exact_mod_cast hhigh
  have hdiv : (a : ℚ) / b * b = a := div_mul_cancel₀ _ hb'.ne'
  rw [abs_le]
  constructor <;> nlinarith

theorem full_le_fraction (hb : 0 < b) (hlog : 2 ^ (52 + k) ≤ a / b) :
    (2 : ℚ) ^ (e + k + 52) ≤ a / b * 2 ^ e := by
  have hfull : (2 : ℚ) ^ (52 + k) ≤ a / b := by
    rw [le_div_iff₀ (by exact_mod_cast hb)]
    exact_mod_cast (Nat.le_div_iff_mul_le hb).mp hlog
  calc
    (2 : ℚ) ^ (e + k + 52) = 2 ^ (52 + k) * 2 ^ e := by
      rw [← zpow_natCast, ← zpow_add₀ (by norm_num)]
      congr 1
      push_cast
      ring
    _ ≤ a / b * 2 ^ e := mul_le_mul_of_nonneg_right hfull (zpow_pos (by norm_num) e).le

theorem near_nearestWhole (hb : 0 < b) (hlog : 2 ^ (52 + k) ≤ a / b) :
    Near (a / b * 2 ^ e) (nearestWhole a (b * 2 ^ k) * 2 ^ (e + k)) := by
  have hb' : (0 : ℚ) < b := by exact_mod_cast hb
  have hpow : (0 : ℚ) < 2 ^ (e + k) := zpow_pos (by norm_num) _
  have hscale : (a / b * 2 ^ e : ℚ) = a / (b * 2 ^ k : Nat) * 2 ^ (e + k) := by
    rw [zpow_add₀ (by norm_num), zpow_natCast]
    push_cast
    field_simp
  refine ⟨_, _, rfl, full_le_fraction hb hlog, ?_⟩
  have hhalf := abs_nearestWhole_sub_le (a := a) (Nat.mul_pos hb (Nat.two_pow_pos k))
  rw [hscale, ← sub_mul, abs_mul, abs_of_pos hpow]
  linarith [mul_le_mul_of_nonneg_right hhalf hpow.le]

/-- The exact number has the exponents of normal numbers. -/
def Normal (q : ℚ) : Prop := 2 ^ (-1022 : Int) ≤ q ∧ q < 2 ^ 1023

theorem log2_of_normal (hb : 0 < b)
    (hk : Format.binary64.targetExponent (totalExponent (a / b) e) = e + k)
    (hlow : 2 ^ (-1022 : Int) ≤ (a / b * 2 ^ e : ℚ)) : (a / b).log2 = 52 + k := by
  have hb' : (0 : ℚ) < b := by exact_mod_cast hb
  have hlt : (a / b * 2 ^ e : ℚ) < 2 ^ ((a / b).log2 + 1 + e : Int) := by
    have hquotient : (a : ℚ) / b < 2 ^ ((a / b).log2 + 1) := by
      rw [div_lt_iff₀ hb']
      exact_mod_cast (Nat.div_lt_iff_lt_mul hb).mp Nat.lt_log2_self
    have hpow : (2 : ℚ) ^ ((a / b).log2 + 1 + e : Int) = 2 ^ ((a / b).log2 + 1) * 2 ^ e := by
      rw [zpow_add₀ (by norm_num), ← zpow_natCast]
      push_cast
      rfl
    rw [hpow]
    exact mul_lt_mul_of_pos_right hquotient (zpow_pos (by norm_num) e)
  have hexponent := (zpow_lt_zpow_iff_right₀ (by norm_num : (1 : ℚ) < 2)).mp (hlow.trans_lt hlt)
  rw [targetExponent_eq] at hk
  omega

theorem nearestWhole_full (hb : 0 < b) (hlog : (a / b).log2 = 52 + k) :
    2 ^ 52 ≤ nearestWhole a (b * 2 ^ k) ∧ nearestWhole a (b * 2 ^ k) ≤ 2 ^ 53 := by
  have hpos : 0 < b * 2 ^ k := Nat.mul_pos hb (Nat.two_pow_pos k)
  have hne : a / b ≠ 0 := by
    intro hzero
    rw [hzero, Nat.log2_zero] at hlog
    omega
  have hlow : 2 ^ 52 * (b * 2 ^ k) ≤ a := by
    have hle := (Nat.le_div_iff_mul_le hb).mp ((Nat.le_log2 hne).mp hlog.ge)
    rwa [Nat.pow_add, Nat.mul_assoc, Nat.mul_comm (2 ^ k)] at hle
  have hhigh : a < 2 ^ 53 * (b * 2 ^ k) := by
    have hlt := (Nat.div_lt_iff_lt_mul hb).mp
      ((Nat.log2_lt hne).mp (show (a / b).log2 < 53 + k by omega))
    rwa [Nat.pow_add, Nat.mul_assoc, Nat.mul_comm (2 ^ k)] at hlt
  obtain ⟨hup, hdown⟩ := nearestWhole_bounds (a := a) hpos
  constructor
  · by_contra hlt
    have hmul := Nat.mul_le_mul_right (b * 2 ^ k) (show nearestWhole a (b * 2 ^ k) + 1 ≤ 2 ^ 52 by omega)
    rw [Nat.add_mul] at hmul
    omega
  · by_contra hgt
    have hmul := Nat.mul_le_mul_right (b * 2 ^ k) (show 2 ^ 53 + 1 ≤ nearestWhole a (b * 2 ^ k) by omega)
    rw [Nat.add_mul] at hmul
    omega

theorem round_normal (s : Sign) (hb : 0 < b)
    (hk : Format.binary64.targetExponent (totalExponent (a / b) e) = e + k)
    (hnormal : Normal (a / b * 2 ^ e)) :
    ∃ m f h, UnpackedFloat.roundWithAccuracy .binary64 s (a / b) e (accuracyOfFraction (a % b) b)
      = .finite s m f h ∧ Canonical m f ∧ f ≤ 971 ∧ Near (a / b * 2 ^ e) (m * 2 ^ f) := by
  have hlog := log2_of_normal hb hk hnormal.1
  obtain ⟨hlow, hhigh⟩ := nearestWhole_full hb hlog
  have hne : a / b ≠ 0 := by
    intro hzero
    rw [hzero, Nat.log2_zero] at hlog
    omega
  have hfull := (Nat.le_log2 hne).mp hlog.ge
  have hnear := near_nearestWhole (e := e) hb hfull
  have hleast : -1074 ≤ e + k := by
    rw [← hk, targetExponent_eq]
    omega
  have hgreatest : e + k ≤ 970 := by
    have hlt := (full_le_fraction (e := e) hb hfull).trans_lt hnormal.2
    rw [← zpow_natCast, zpow_lt_zpow_iff_right₀ (by norm_num)] at hlt
    omega
  rcases hhigh.lt_or_eq with hlt | htop
  · have htwice : 2 ^ 53 ≤ 2 * nearestWhole a (b * 2 ^ k) := by omega
    exact ⟨_, _, by omega, round_of_representable hb hk (by omega) ⟨hlt, hleast, .inr htwice⟩,
      ⟨hlt, hleast, .inr hlow⟩, by omega, hnear⟩
  · refine ⟨_, _, Nat.two_pow_pos _, round_of_top hb hk htop hleast,
      ⟨by decide, by omega, .inr le_rfl⟩, by omega, ?_⟩
    have hvalue : ((2 ^ (Format.binary64.mantissaBits - 1) : Nat) : ℚ) * 2 ^ (e + k + 1)
        = nearestWhole a (b * 2 ^ k) * 2 ^ (e + k) := by
      rw [htop, zpow_add_one₀ (by norm_num)]
      have hbits : Format.binary64.mantissaBits = 53 := rfl
      rw [hbits]
      push_cast
      ring
    rw [hvalue]
    exact hnear

theorem round_normal_whole (s : Sign) {m : Nat}
    (hk : Format.binary64.targetExponent (totalExponent m e) = e + k) (hnormal : Normal (m * 2 ^ e)) :
    ∃ n f h, UnpackedFloat.roundWithAccuracy .binary64 s m e .exact = .finite s n f h ∧
      Canonical n f ∧ f ≤ 971 ∧ Near (m * 2 ^ e) (n * 2 ^ f) := by
  have hround := @round_normal m 1 k e s Nat.one_pos (by rwa [Nat.div_one])
    (by rwa [Nat.cast_one, div_one])
  rwa [Nat.div_one, Nat.mod_one, Nat.cast_one, div_one] at hround

theorem round_near (s : Sign) {m : Nat} {e : Int} (hm : 0 < m) (hnormal : Normal (m * 2 ^ e)) :
    ∃ n f h, UnpackedFloat.round .binary64 s m e = .finite s n f h ∧ Canonical n f ∧ f ≤ 971 ∧
      Near (m * 2 ^ e) (n * 2 ^ f) := by
  obtain ⟨d, hd⟩ : ∃ d, (e - Format.binary64.targetExponent (totalExponent m e)).toNat = d :=
    ⟨_, rfl⟩
  have hround : UnpackedFloat.round .binary64 s m e =
      UnpackedFloat.roundWithAccuracy .binary64 s (m <<< d) (e - d) .exact := by
    subst hd
    rfl
  have htotal : totalExponent (m <<< d) (e - d) = totalExponent m e := by
    rw [totalExponent, totalExponent, log2_shiftLeft hm]
    omega
  obtain ⟨k, hk⟩ := Int.le.dest
    (show e - d ≤ Format.binary64.targetExponent (totalExponent (m <<< d) (e - d)) by
      rw [htotal]
      omega)
  rw [← shiftLeft_mul m d e] at hnormal ⊢
  rw [hround]
  exact round_normal_whole s hk.symm hnormal

/-! ### Operations -/

variable {x y : Float} {p q : ℚ}

theorem exact_pack {s : Sign} {m : Nat} {f : Int} {h : 0 < m} (hc : Canonical m f) (hf : f ≤ 971) :
    exactOf (Float.Model.pack (.finite s m f h)).unpack = Extended.ofRat (s.apply m * 2 ^ f) := by
  rw [unpack_pack_finite h hc hf]
  rfl

theorem positive_of_exact (hx : exact x = Extended.ofRat p) (hp : 0 < p) :
    ∃ m e h, x.toModel.unpack = .finite .positive m e h ∧ p = m * 2 ^ e ∧ Canonical m e := by
  obtain ⟨m, e, h, hu⟩ := unpack_of_exact_pos hx hp
  refine ⟨m, e, h, hu, ?_, canonical_of_unpack hu⟩
  rw [exact, hu, exactOf_positive] at hx
  exact (Extended.ofRat_inj.mp hx).symm

theorem exact_mul_near (hx : exact x = Extended.ofRat p) (hp : 0 < p)
    (hy : exact y = Extended.ofRat q) (hq : 0 < q) (hnormal : Normal (p * q)) :
    ∃ v, exact (x * y) = Extended.ofRat v ∧ Near (p * q) v := by
  obtain ⟨m, e, hm, hu, rfl, hcm⟩ := positive_of_exact hx hp
  obtain ⟨n, f, hn, hv, rfl, hcn⟩ := positive_of_exact hy hq
  have hvalue : (m * 2 ^ e * (n * 2 ^ f) : ℚ) = (m * n : Nat) * 2 ^ (e + f) := by
    rw [zpow_add₀ (by norm_num)]
    push_cast
    ring
  rw [hvalue] at hnormal ⊢
  obtain ⟨k, hk⟩ := Int.le.dest (le_target_mul hm hn hcm hcn)
  obtain ⟨r, g, hr, hround, hc, hg, hnear⟩ :=
    round_normal_whole (.positive * .positive) hk.symm hnormal
  refine ⟨_, ?_, hnear⟩
  change exactOf (Float.Model.pack (UnpackedFloat.mul .binary64 x.toModel.unpack
    y.toModel.unpack)).unpack = _
  rw [hu, hv, UnpackedFloat.mul, hround, exact_pack hc hg]
  rfl

theorem log2_le_div {a n : Nat} (hn : 0 < n) : a.log2 ≤ (a / n).log2 + n.log2 + 1 := by
  rcases Nat.eq_zero_or_pos a with rfl | ha
  · simp
  have hlt : a < 2 ^ ((a / n).log2 + n.log2 + 2) := by
    calc
      a < (a / n + 1) * n := by
        have hdiv := Nat.div_add_mod' a n
        have hmod := Nat.mod_lt a hn
        rw [Nat.add_mul]
        omega
      _ ≤ 2 ^ ((a / n).log2 + 1) * 2 ^ (n.log2 + 1) :=
        Nat.mul_le_mul Nat.lt_log2_self Nat.lt_log2_self.le
      _ = 2 ^ ((a / n).log2 + n.log2 + 2) := by
        rw [← Nat.pow_add]
        congr 1
        omega
  have hlog := (Nat.log2_lt ha.ne').mpr hlt
  omega

theorem le_target_div {m n d : Nat} {e f t : Int} (hm : 0 < m) (hn : 0 < n)
    (ht : t ≤ Format.binary64.targetExponent (totalExponent m e - totalExponent n f))
    (hd : t + d = e - f) :
    t ≤ Format.binary64.targetExponent (totalExponent (m <<< d / n) t) := by
  have hlog := log2_le_div (a := m <<< d) hn
  rw [log2_shiftLeft hm] at hlog
  refine ht.trans ?_
  rw [targetExponent_eq, Format.targetExponent, totalExponent, totalExponent]
  have hbits : (Format.binary64.mantissaBits : Int) = 53 := rfl
  have hleast : Format.binary64.minExponent = -1074 := rfl
  rw [hbits, hleast]
  omega

theorem exact_div_near (hx : exact x = Extended.ofRat p) (hp : 0 < p)
    (hy : exact y = Extended.ofRat q) (hq : 0 < q) (hnormal : Normal (p / q)) :
    ∃ v, exact (x / y) = Extended.ofRat v ∧ Near (p / q) v := by
  obtain ⟨m, e, hm, hu, rfl, hcm⟩ := positive_of_exact hx hp
  obtain ⟨n, f, hn, hv, rfl, hcn⟩ := positive_of_exact hy hq
  obtain ⟨t, ht⟩ : ∃ t, min (e - f) (Format.binary64.targetExponent
    (totalExponent m e - totalExponent n f)) = t := ⟨_, rfl⟩
  obtain ⟨d, hd⟩ := Int.le.dest (show t ≤ e - f from ht ▸ min_le_left _ _)
  have hshift : (e - f - t).toNat = d := by omega
  have hbits := le_target_div hm hn (ht ▸ min_le_right _ _) hd
  have hvalue : (m * 2 ^ e / (n * 2 ^ f) : ℚ) = (m <<< d : Nat) / n * 2 ^ t := by
    have hshifted := shiftLeft_mul m d (e - f)
    rw [show e - f - (d : Int) = t by omega, zpow_sub₀ (by norm_num)] at hshifted
    rw [mul_div_mul_comm, div_mul_eq_mul_div, ← hshifted, mul_div_right_comm]
  rw [hvalue] at hnormal ⊢
  obtain ⟨k, hk⟩ := Int.le.dest hbits
  obtain ⟨r, g, hr, hround, hc, hg, hnear⟩ :=
    round_normal (.positive / .positive) hn hk.symm hnormal
  refine ⟨_, ?_, hnear⟩
  change exactOf (Float.Model.pack (UnpackedFloat.div .binary64 x.toModel.unpack
    y.toModel.unpack)).unpack = _
  rw [hu, hv, UnpackedFloat.div, UnpackedFloat.divCore, ht, hshift]
  exact (congrArg (fun u => exactOf (Float.Model.pack u).unpack) hround).trans (exact_pack hc hg)

theorem isInf_of_exact {x : Float} {q : ℚ} (hx : exact x = Extended.ofRat q) : x.isInf = false := by
  change x.toModel.unpack.isInf = false
  obtain ⟨s, hu, -⟩ | ⟨s, m, e, h, hu, -⟩ := cases_of_exact hx <;> rw [hu] <;> rfl

/-! ### The error of two roundings -/

def slack : ℚ := (2 ^ 40 + 1) / 2 ^ 92

theorem Near.pos {q v : ℚ} (hq : 0 < q) (h : Near q v) : 0 < v := by
  have herror := h.error
  rw [abs_le] at herror
  have hsmall : q / 2 ^ 53 < q := div_lt_self hq (by norm_num)
  linarith

theorem error_mul {n p q t : ℚ} (hn : 0 < n) (ht : 0 < t) (hp : Near t p) (hq : Near (n * p) q) :
    |q - n * t| ≤ n * t * slack := by
  have hpt := hp.error
  have hqp := hq.error
  have hnt : 0 < n * t := mul_pos hn ht
  have hfirst : |n * p - n * t| ≤ n * t / 2 ^ 53 := by
    rw [← mul_sub, abs_mul, abs_of_pos hn, mul_div_assoc]
    exact mul_le_mul_of_nonneg_left hpt hn.le
  rw [abs_le] at hfirst hqp ⊢
  rw [slack]
  constructor <;> linarith

theorem error_div {n p q t : ℚ} (hn : 0 < n) (ht : 0 < t) (hp : Near t p) (hq : Near (n / p) q) :
    |q - n / t| ≤ n / t * slack := by
  have hpt := hp.error
  have hqp := hq.error
  have hppos := Near.pos ht hp
  obtain ⟨x, hx⟩ : ∃ x, n / p = x := ⟨_, rfl⟩
  have hxpos : 0 < x := hx ▸ div_pos hn hppos
  have hquotient : n / t * t = x * p := by
    rw [div_mul_cancel₀ _ ht.ne', ← hx, div_mul_cancel₀ _ hppos.ne']
  -- the quotients differ by as much as the divisors do
  have hfirst : |x - n / t| ≤ x / 2 ^ 53 := by
    refine le_of_mul_le_mul_right ?_ ht
    calc
      |x - n / t| * t = x * |p - t| := by
        rw [← abs_of_pos ht, ← abs_mul, abs_of_pos ht, sub_mul, hquotient, ← mul_sub, abs_mul,
          abs_of_pos hxpos, abs_sub_comm]
      _ ≤ x * (t / 2 ^ 53) := mul_le_mul_of_nonneg_left hpt hxpos.le
      _ = x / 2 ^ 53 * t := by ring
  rw [hx] at hqp
  rw [abs_le] at hfirst hqp ⊢
  rw [slack]
  constructor <;> linarith

theorem normal_of_bounds {q : ℚ} (hlow : 1 ≤ q * 10 ^ 60) (hhigh : q ≤ 10 ^ 70) : Normal q := by
  constructor
  · have hpow : (10 : ℚ) ^ 60 ≤ 2 ^ 1022 :=
      (show (10 : ℚ) ^ 60 ≤ 2 ^ 200 by norm_num).trans (pow_le_pow_right₀ (by norm_num) (by norm_num))
    rw [zpow_neg, inv_le_iff_one_le_mul₀ (zpow_pos (by norm_num) _)]
    refine hlow.trans (mul_le_mul_of_nonneg_left hpow ?_)
    by_contra hneg
    linarith
  · exact hhigh.trans_lt <| (show (10 : ℚ) ^ 70 < 2 ^ 250 by norm_num).trans_le
      (pow_le_pow_right₀ (by norm_num) (by norm_num))

end PathPolicy.Double
