import PathPolicy.Time

/-!
Network paths between two areas. A path crosses process boundaries by value and is referred
to afterwards by its fingerprint.
-/

namespace PathPolicy

/-- Identifies a path among the candidates of one session. -/
abbrev Fingerprint := String

structure Interface where
  area : String
  id : UInt64
deriving DecidableEq

inductive LinkType
  | unset
  | direct
  | multiHop
  | openNet
deriving DecidableEq

namespace LinkType

def code : LinkType → Nat
  | unset => 0
  | direct => 1
  | multiHop => 2
  | openNet => 3

def ofCode? : Nat → Option LinkType
  | 0 => some unset
  | 1 => some direct
  | 2 => some multiHop
  | 3 => some openNet
  | _ => none

theorem ofCode?_code (l : LinkType) : ofCode? l.code = some l := by
  cases l <;> rfl

end LinkType

structure Location where
  latitude : Float32
  longitude : Float32
  address : String
deriving DecidableEq

/-- What is known about a path. Every list is ordered along the path. -/
structure Metadata where
  mtu : UInt16
  interfaces : List Interface
  /-- In nanoseconds. -/
  latency : List Nat
  /-- In kilobits per second. -/
  bandwidth : List UInt64
  linkTypes : List LinkType
  internalHops : List UInt32
  notes : List String
  locations : List Location
deriving DecidableEq

structure Path where
  source : String
  destination : String
  metadata : Option Metadata
  fingerprint : Fingerprint
  expiry : Instant
deriving DecidableEq

end PathPolicy
