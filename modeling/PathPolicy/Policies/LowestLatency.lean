import PathPolicy.Vm.Maths
import PathPolicy.Vm.Policy
import Std.Data.ExtTreeMap

/-!
The policy that the daemon comes with: of the candidates of a pair it selects the one with the
lowest total latency, the first of several. A path reported down gets a penalty on its latency,
which decays as time goes by, so that the path is tried again some day.
-/

namespace PathPolicy.Policies.LowestLatency
open Vm

structure Entry where
  preferences : Value
  paths : Value

/-- What a penalty is for: a fingerprint, which is a text unless a caller goes past the daemon.
A table or a function is met once only, so that its penalty is never looked up again. -/
inductive Subject
  | text (s : String)
  | integer (n : Int64)
  | number (x : Float)
  | boolean (b : Bool)
  | passing
deriving DecidableEq

/-- Whole numbers are the same in either form. What is no number has no place in a table. -/
def Subject.ofValue : Value → Except String Subject
  | .nil => .error "table index is nil"
  | .boolean b => .ok (boolean b)
  | .integer n => .ok (integer n)
  | .number x =>
    if x.isNaN then .error "table index is NaN"
    else
      match Maths.wholeOr x with
      | .integer n => .ok (integer n)
      | _ => .ok (number x)
  | .text s => .ok (text s)
  | .blob _ | .table _ _ | .function | .thread => .ok passing

abbrev Penalties := List (Subject × Float)

namespace Penalties

def find? (penalties : Penalties) (subject : Subject) : Option Float :=
  if subject = .passing then none else penalties.lookup subject

def set (penalties : Penalties) (subject : Subject) (x : Float) : Penalties :=
  (subject, x) :: penalties.filter fun e => e.1 ≠ subject || subject = .passing

end Penalties

structure State where
  /-- Where the script was loaded from. -/
  path : String
  entries : Std.ExtTreeMap String Entry
  penalties : Penalties

def decayPerSecond : Float := 0.5

def penaltyStep : Float := 1e9

def emptyTable : Value := .table [] []

variable (path : String)

def fail {α : Type} (line : Nat) (message : String) : Except String α :=
  .error (raised path line message)

def joined (v : Value) (name : String) : Except String String :=
  match joinable? v with
  | some s => .ok s
  | none =>
    fail path 9 ("attempt to concatenate a " ++ v.scriptKind ++ " value (local '" ++ name ++ "')")

/-- The key of a pair. The second address is looked at first. -/
def key (l r : Value) : Except String String := do
  let right ← joined path r "r"
  let left ← joined path l "l"
  return left ++ " " ++ right

def entryAt (line : Nat) (v : Value) (name whose : String) : Except String Value :=
  (entry v name whose).mapError (raised path line)

/-- The entries that a loop over a table visits; a string has none. The loop's own errors have
no place in the script. -/
def visited : Value → Except String (List Value)
  | .table array _ => .ok (sequenceOf array)
  | .text _ | .blob _ => .ok []
  | v => .error ("attempt to index a " ++ v.scriptKind ++ " value")

def total : Value → List Value → Except String Value
  | sum, [] => .ok sum
  | sum, v :: rest =>
    match arithmetic? v with
    | some n => total (addNumbers sum n) rest
    | none => fail path 14 (refusedOperand "add" "l" v)

def penalty (penalties : Penalties) (fingerprint : Value) : Value :=
  match Subject.ofValue fingerprint with
  | .ok subject =>
    match penalties.find? subject with
    | some x => .number x
    | none => .integer 0
  | .error _ => .integer 0

/-- A path's latency over all hops, and its penalty. Without metadata the latency is zero. -/
def latency (penalties : Penalties) (p : Value) : Except String Value := do
  let metadata ← entryAt path 13 p "Metadata" "local 'p'"
  let hops ←
    if metadata.holds then do
      let hops ← entryAt path 14 metadata "Latency" "field 'Metadata'"
      total path (.integer 0) (← visited hops)
    else pure (.integer 0)
  let fingerprint ← entryAt path 16 p "Fingerprint" "local 'p'"
  return addNumbers hops (penalty penalties fingerprint)

def best (penalties : Penalties) :
    Value × Value → List Value → Except String Value
  | (p, _), [] => .ok p
  | (p, cost), q :: rest => do
    let c ← latency path penalties q
    if lessNumbers c cost then best penalties (q, c) rest else best penalties (p, cost) rest

def select (s : State) (l r : Value) : Except String Value := do
  match s.entries[← key s.path l r]? with
  | none => return .nil
  | some e =>
    let candidates ← visited e.paths
    let p ← best s.path s.penalties (.nil, .number Maths.huge) candidates
    if p.holds then entryAt s.path 41 p "Fingerprint" "local 'best'" else return p

/-! ### What the policy defines -/

def initialise (s : State) (args : List Value) : Except String (List Value × State) := do
  let k ← key s.path (argument args 1) (argument args 2)
  return ([], { s with entries := s.entries.insert k ⟨argument args 0, argument args 3⟩ })

def setPreferences (s : State) (args : List Value) : Except String (List Value × State) := do
  let k ← key s.path (argument args 1) (argument args 2)
  let paths := match s.entries[k]? with | some e => e.paths | none => emptyTable
  return ([], { s with entries := s.entries.insert k ⟨argument args 0, paths⟩ })

def refresh (s : State) (args : List Value) : Except String (List Value × State) := do
  let k ← key s.path (argument args 0) (argument args 1)
  let preferences := match s.entries[k]? with | some e => e.preferences | none => emptyTable
  return ([], { s with entries := s.entries.insert k ⟨preferences, argument args 2⟩ })

def selectPath (s : State) (args : List Value) : Except String (List Value × State) := do
  return ([← select s (argument args 0) (argument args 1)], s)

def pathDown (s : State) (args : List Value) : Except String (List Value × State) := do
  let _ ← entryAt s.path 45 (argument args 3) "IA" "local 'intf'"
  let fingerprint := argument args 2
  let subject ← (Subject.ofValue fingerprint).mapError (raised s.path 46)
  let x := floatOf (penalty s.penalties fingerprint) + penaltyStep
  return ([], { s with penalties := s.penalties.set subject x })

def close (s : State) (args : List Value) : Except String (List Value × State) := do
  let k ← key s.path (argument args 0) (argument args 1)
  return ([], { s with entries := s.entries.erase k })

/-- What is left of a penalty after some seconds; nothing below one. -/
def decayed (factor v : Float) : Option Float :=
  let left := v * factor
  if left < 1 then none else some left

def periodic (s : State) (args : List Value) : Except String (List Value × State) :=
  let seconds := argument args 0
  if s.penalties.isEmpty then .ok ([], s)
  else
    match arithmetic? seconds with
    | none => fail s.path 55 (refusedOperand "mul" "dt" seconds)
    | some n =>
      let factor := 1 - decayPerSecond * floatOf n
      .ok ([], { s with
        penalties := s.penalties.filterMap fun (subject, v) =>
          (decayed factor v).map (subject, ·) })

def closedConnection (s : State) (_ : List Value) : Except String (List Value × State) :=
  .ok ([], s)

def definition? (moduleName function : String) :
    Option (State → List Value → Except String (List Value × State)) :=
  if moduleName = "panapi" then
    if function = "Initialize" then some initialise
    else if function = "SetPreferences" then some setPreferences
    else if function = "Refresh" then some refresh
    else if function = "Path" then some selectPath
    else if function = "PathDown" then some pathDown
    else if function = "Close" then some close
    else if function = "Periodic" then some periodic
    else none
  else if moduleName = "stats" ∧ function = "ClosedConnection" then some closedConnection
  else none

def policy : Policy State where
  load path := .ok ⟨path, ∅, []⟩
  binding? _ moduleName function :=
    (definition? moduleName function).map fun f =>
      .function fun s args => .ofResult s (f s args)

end PathPolicy.Policies.LowestLatency
