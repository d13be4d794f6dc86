/-!
Instants and durations. An instant is counted in nanoseconds from the epoch, before it in
negative numbers; a duration is a natural number of nanoseconds.
-/

namespace PathPolicy

structure Instant where
  nanos : Int
deriving DecidableEq

namespace Instant

def epoch : Instant := ⟨0⟩

/-- Whole microseconds from the epoch, truncated toward it and held within 64 bits. -/
def unixMicros (t : Instant) : Int64 :=
  Int64.ofInt (max Int64.minValue.toInt (min Int64.maxValue.toInt (t.nanos.tdiv 1000)))

def ofUnixMicros (micros : Int64) : Instant := ⟨micros.toInt * 1000⟩

/-- Nanoseconds since the epoch; earlier instants count as the epoch, and later ones than 64
bits can say as the last one that they can. -/
def unixNanos (t : Instant) : UInt64 := UInt64.ofNat (min (UInt64.size - 1) t.nanos.toNat)

def ofUnixNanos (nanos : UInt64) : Instant := ⟨nanos.toNat⟩

end Instant

namespace Duration

/-- Nanoseconds, as many as 64 bits can say. -/
def nanos (d : Nat) : UInt64 := UInt64.ofNat (min (UInt64.size - 1) d)

def micros (d : Nat) : UInt64 := UInt64.ofNat (min (UInt64.size - 1) (d / 1000))

def seconds (d : Nat) : Float :=
  (UInt64.ofNat (d / 1000000000)).toFloat + (UInt64.ofNat (d % 1000000000)).toFloat / 1e9

end Duration
end PathPolicy
