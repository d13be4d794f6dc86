import PathPolicy.Time

/-!
Microseconds from the epoch, in both directions. A clock keeps the whole seconds of an instant in 64
bits with a sign. It has an instant for every number of microseconds in 64 bits, and instants beyond
them, which count as the last one on their side. Every step in between stays within its range.
-/
namespace PathPolicy

/-! ### Step by step, in ranges -/

/-- The distance from zero, for which 64 bits are always enough without a sign. -/
def magnitude (n : Int64) : UInt64 := .ofNat n.toInt.natAbs

/-- Changes the sign. The least number has no counterpart. -/
def negated? (n : Int64) : Option Int64 := if n = Int64.minValue then none else some (-n)

namespace Duration

def Held (d : Nat) : Prop := d / 1000000000 < UInt64.size

instance (d : Nat) : Decidable (Held d) := inferInstanceAs (Decidable (_ < _))

def held? (d : Nat) : Option Nat := if Held d then some d else none

def ofMicros (n : UInt64) : Nat := n.toNat * 1000

def signedMicros? (d : Nat) : Option Int64 :=
  if (d / 1000 : Nat) ≤ Int64.maxValue.toInt then some (.ofInt (d / 1000 : Nat)) else none

def microsAfter (d : Nat) : Int64 := (signedMicros? d).getD Int64.maxValue

/-- The count of an instant so long before the epoch: the last one, if it does not fit. -/
def microsBefore? (d : Nat) : Option Int64 :=
  match signedMicros? d with
  | some micros => negated? micros
  | none => some Int64.minValue

end Duration

namespace Instant

def Held (t : Instant) : Prop :=
  Int64.minValue.toInt ≤ t.nanos / 1000000000 ∧ t.nanos / 1000000000 ≤ Int64.maxValue.toInt

instance (t : Instant) : Decidable t.Held := inferInstanceAs (Decidable (_ ∧ _))

def held? (t : Instant) : Option Instant := if t.Held then some t else none

def later? (t : Instant) (d : Nat) : Option Instant := held? ⟨t.nanos + d⟩

def earlier? (t : Instant) (d : Nat) : Option Instant := held? ⟨t.nanos - d⟩

/-- The count of microseconds by way of the distance on the instant's side of the epoch. There is
none if a step leaves its range. -/
def unixMicros? (t : Instant) : Option Int64 :=
  if epoch.nanos ≤ t.nanos then
    (Duration.held? (t.nanos - epoch.nanos).toNat).map Duration.microsAfter
  else
    (Duration.held? (epoch.nanos - t.nanos).toNat).bind Duration.microsBefore?

/-- The instant of a count of microseconds, so long after the epoch or before it. There is none if
a clock does not have it. -/
def ofUnixMicros? (micros : Int64) : Option Instant :=
  (Duration.held? (Duration.ofMicros (magnitude micros))).bind fun d =>
    if 0 ≤ micros then epoch.later? d else epoch.earlier? d

end Instant

theorem toNat_magnitude (n : Int64) : (magnitude n).toNat = n.toInt.natAbs := by
  have hmin := n.le_toInt
  have hmax := n.toInt_lt
  rw [magnitude, UInt64.toNat_ofNat']
  exact Nat.mod_eq_of_lt (by omega)

theorem toInt_neg {n : Int64} (h : 0 ≤ n.toInt) : (-n).toInt = -n.toInt := by
  have hmax := n.toInt_lt
  rw [Int64.toInt_neg]
  exact Int.bmod_eq_of_le (by omega) (by omega)

namespace Duration

theorem held?_of_held {d : Nat} (h : Held d) : held? d = some d := if_pos h

theorem toInt_of_signedMicros? {d : Nat} {micros : Int64} (h : signedMicros? d = some micros) :
    micros.toInt = (d / 1000 : Nat) := by
  rw [signedMicros?] at h
  split at h
  next hle =>
    cases h
    exact Int64.toInt_ofInt_of_le (by omega) (Int.lt_of_le_of_lt hle (by decide))
  next => cases h

theorem lt_of_signedMicros? {d : Nat} (h : signedMicros? d = none) :
    Int64.maxValue.toInt < (d / 1000 : Nat) := by
  rw [signedMicros?] at h
  split at h
  · cases h
  · omega

theorem toInt_microsAfter (d : Nat) :
    (microsAfter d).toInt = min Int64.maxValue.toInt (d / 1000 : Nat) := by
  rw [microsAfter]
  cases h : signedMicros? d with
  | some micros =>
    have hmax := micros.toInt_le
    have hcount := toInt_of_signedMicros? h
    rw [Option.getD_some]
    omega
  | none =>
    have hover := lt_of_signedMicros? h
    rw [Option.getD_none]
    omega

theorem exists_microsBefore? (d : Nat) : ∃ micros, microsBefore? d = some micros ∧
    micros.toInt = max Int64.minValue.toInt (-(d / 1000 : Nat)) := by
  have hmin : Int64.minValue.toInt = -2 ^ 63 := Int64.toInt_minValue
  have hmax : Int64.maxValue.toInt = 2 ^ 63 - 1 := Int64.toInt_maxValue
  rw [microsBefore?]
  cases h : signedMicros? d with
  | some micros =>
    have hcount := toInt_of_signedMicros? h
    have hfits := micros.toInt_le
    -- a count of at least zero is not the one number without a counterpart
    have hne : micros ≠ Int64.minValue := by
      rintro rfl
      omega
    refine ⟨-micros, if_neg hne, ?_⟩
    rw [toInt_neg (by omega)]
    omega
  | none =>
    have hover := lt_of_signedMicros? h
    refine ⟨Int64.minValue, rfl, ?_⟩
    omega

end Duration

namespace Instant
variable {t u : Instant}

@[simp] theorem nanos_epoch : epoch.nanos = 0 := rfl

@[simp] theorem nanos_ofUnixMicros (micros : Int64) :
    (ofUnixMicros micros).nanos = micros.toInt * 1000 := rfl

/-! ### The count -/

theorem toInt_unixMicros (t : Instant) :
    t.unixMicros.toInt
      = max Int64.minValue.toInt (min Int64.maxValue.toInt (t.nanos.tdiv 1000)) := by
  have hmin : Int64.minValue.toInt = -2 ^ 63 := Int64.toInt_minValue
  have hmax : Int64.maxValue.toInt = 2 ^ 63 - 1 := Int64.toInt_maxValue
  exact Int64.toInt_ofInt_of_le (by omega) (by omega)

theorem toInt_unixMicros_of_nonneg (h : 0 ≤ t.nanos) :
    t.unixMicros.toInt = min Int64.maxValue.toInt (t.nanos.natAbs / 1000 : Nat) := by
  rw [toInt_unixMicros, Int.tdiv_eq_ediv_of_nonneg h, Int64.toInt_minValue, Int64.toInt_maxValue]
  omega

theorem toInt_unixMicros_of_neg (h : t.nanos < 0) :
    t.unixMicros.toInt = max Int64.minValue.toInt (-(t.nanos.natAbs / 1000 : Nat)) := by
  have hdiv : t.nanos.tdiv 1000 = -((-t.nanos) / 1000) := by
    rw [← Int.tdiv_eq_ediv_of_nonneg (by omega), Int.neg_tdiv, Int.neg_neg]
  rw [toInt_unixMicros, hdiv, Int64.toInt_minValue, Int64.toInt_maxValue]
  omega

theorem unixMicros_mono (h : t.nanos ≤ u.nanos) : t.unixMicros ≤ u.unixMicros := by
  have hdiv : t.nanos.tdiv 1000 ≤ u.nanos.tdiv 1000 := Int.tdiv_le_tdiv (by decide) h
  rw [Int64.le_iff_toInt_le, toInt_unixMicros, toInt_unixMicros]
  omega

theorem unixMicros_ofUnixMicros (micros : Int64) : (ofUnixMicros micros).unixMicros = micros := by
  have hmin : Int64.minValue.toInt ≤ micros.toInt := micros.le_toInt
  have hmax : micros.toInt ≤ Int64.maxValue.toInt := micros.toInt_le
  have hdiv : (micros.toInt * 1000).tdiv 1000 = micros.toInt := Int.mul_tdiv_cancel _ (by decide)
  rw [← Int64.toInt_inj, toInt_unixMicros, nanos_ofUnixMicros, hdiv]
  omega

/-! ### The steps -/

theorem held_ofUnixMicros (micros : Int64) : (ofUnixMicros micros).Held := by
  have hmin := micros.le_toInt
  have hmax := micros.toInt_lt
  rw [Held, nanos_ofUnixMicros, Int64.toInt_minValue, Int64.toInt_maxValue]
  omega

theorem Held.distance (h : t.Held) : Duration.Held t.nanos.natAbs := by
  obtain ⟨hmin, hmax⟩ := h
  rw [Int64.toInt_minValue] at hmin
  rw [Int64.toInt_maxValue] at hmax
  rw [Duration.Held, UInt64.size]
  omega

theorem held?_of_held (h : t.Held) : held? t = some t := if_pos h

theorem distance_ofUnixMicros (micros : Int64) :
    Duration.ofMicros (magnitude micros) = (ofUnixMicros micros).nanos.natAbs := by
  rw [Duration.ofMicros, toNat_magnitude, nanos_ofUnixMicros, Int.natAbs_mul]
  rfl

theorem ofUnixMicros?_eq (micros : Int64) : ofUnixMicros? micros = some (ofUnixMicros micros) := by
  have hheld := held_ofUnixMicros micros
  have hsign : 0 ≤ micros ↔ 0 ≤ (ofUnixMicros micros).nanos := by
    have hzero : (0 : Int64).toInt = 0 := rfl
    rw [Int64.le_iff_toInt_le, nanos_ofUnixMicros, hzero]
    omega
  rw [ofUnixMicros?, distance_ofUnixMicros, Duration.held?_of_held hheld.distance]
  simp only [Option.bind_some, hsign]
  split
  next h => rw [later?, nanos_epoch, Int.zero_add, Int.natAbs_of_nonneg h, held?_of_held hheld]
  next h =>
    have hneg : -((ofUnixMicros micros).nanos.natAbs : Int) = (ofUnixMicros micros).nanos := by omega
    rw [earlier?, nanos_epoch, Int.zero_sub, hneg, held?_of_held hheld]

theorem unixMicros?_eq (h : t.Held) : t.unixMicros? = some t.unixMicros := by
  rw [unixMicros?, nanos_epoch]
  split
  next hnonneg =>
    have hdistance : (t.nanos - 0).toNat = t.nanos.natAbs := by omega
    have hcount : Duration.microsAfter t.nanos.natAbs = t.unixMicros := by
      rw [← Int64.toInt_inj, Duration.toInt_microsAfter, toInt_unixMicros_of_nonneg hnonneg]
    rw [hdistance, Duration.held?_of_held h.distance, Option.map_some, hcount]
  next hneg =>
    have hdistance : (0 - t.nanos).toNat = t.nanos.natAbs := by omega
    obtain ⟨micros, hsome, hcount⟩ := Duration.exists_microsBefore? t.nanos.natAbs
    have hmicros : micros = t.unixMicros := by
      rw [← Int64.toInt_inj, hcount, toInt_unixMicros_of_neg (Int.not_le.mp hneg)]
    rw [hdistance, Duration.held?_of_held h.distance, Option.bind_some, hsome, hmicros]

/-- Every count in 64 bits is that of an instant which a clock has, and is counted from it again. Of
an instant whole microseconds are counted between it and the epoch, with a sign before it, as far as
64 bits go; a later instant never has a lower count. No step leaves its range on the way. -/
theorem microseconds_exact :
    (∀ micros : Int64, ofUnixMicros? micros = some (ofUnixMicros micros) ∧
      (ofUnixMicros micros).Held ∧ (ofUnixMicros micros).unixMicros = micros) ∧
    (∀ t : Instant, t.Held → t.unixMicros? = some t.unixMicros) ∧
    (∀ t : Instant,
      (0 ≤ t.nanos →
        t.unixMicros.toInt = min Int64.maxValue.toInt (t.nanos.natAbs / 1000 : Nat)) ∧
      (t.nanos < 0 →
        t.unixMicros.toInt = max Int64.minValue.toInt (-(t.nanos.natAbs / 1000 : Nat)))) ∧
    ∀ t u : Instant, t.nanos ≤ u.nanos → t.unixMicros ≤ u.unixMicros := by
  refine ⟨?_, ?_, ?_, ?_⟩
  · intro micros
    exact ⟨ofUnixMicros?_eq micros, held_ofUnixMicros micros, unixMicros_ofUnixMicros micros⟩
  · intro t h
    exact unixMicros?_eq h
  · intro t
    exact ⟨toInt_unixMicros_of_nonneg, toInt_unixMicros_of_neg⟩
  · intro t u h
    exact unixMicros_mono h

/-- The first instant of a clock counts as the least number, though it is much earlier; an instant
less than two microseconds before the epoch is one before it. -/
theorem microseconds_exact_earliest :
    let earliest : Instant := ⟨-9223372036854775808000000000⟩
    let shortly : Instant := ⟨-1999⟩
    earliest.Held ∧ earliest.unixMicros? = some Int64.minValue ∧ shortly.unixMicros.toInt = -1 ∧
      earliest.unixMicros ≤ shortly.unixMicros := by
  intro earliest shortly
  obtain ⟨-, hsteps, hcount, hmono⟩ := microseconds_exact
  have hheld : earliest.Held := by decide
  have hleast : earliest.unixMicros = Int64.minValue :=
    Int64.toInt_inj.mp (((hcount earliest).2 (by decide)).trans (by decide))
  refine ⟨hheld, ?_, ((hcount shortly).2 (by decide)).trans (by decide), hmono _ _ (by decide)⟩
  rw [hsteps earliest hheld, hleast]

end Instant
end PathPolicy
