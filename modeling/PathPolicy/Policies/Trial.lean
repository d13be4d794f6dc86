import PathPolicy.Vm.Maths
import PathPolicy.Vm.Policy

/-! Small policies to try a host with. -/

namespace PathPolicy.Policies
open Vm

def empty : Policy Unit where
  load _ := .ok ()
  binding? _ _ _ := none

def malformed : Policy Unit where
  load path := .error ("syntax error: " ++ raised path 1 "<name> expected near '('")
  binding? _ _ _ := none

def failing : Policy Unit where
  load path := .error ("runtime error: " ++ raised path 1 "refusing to load")
  binding? _ _ _ := none

def echo : Policy Unit where
  load _ := .ok ()
  binding? _ moduleName function :=
    if (moduleName, function) ∈ [("panapi", "Path"), ("stats", "Debug")] then
      some (.function fun s args => .pure s args)
    else none

def uncallable : Policy Unit where
  load _ := .ok ()
  binding? _ moduleName function :=
    if moduleName = "panapi" then
      if function = "Path" then some (.value (.integer 42))
      else if function = "Refresh" then some (.value (.table [] []))
      else if function = "PathDown" then some (.value (.boolean true))
      else if function = "Close" then some (.value (.number 1.5))
      else none
    else if moduleName = "stats" ∧ function = "Close" then some (.value (.text "closed"))
    else none

/-! ### A policy that remembers what it was told -/

namespace Recording

structure State where
  path : String
  calls : Int64
  preferences : Value
  answer : Value
  downed : Value

def counted (f : State → List Value → Except String State) (s : State) (args : List Value) :
    Effect State :=
  let s := { s with calls := s.calls + 1 }
  match f s args with
  | .ok s => .pure s []
  | .error reason => ⟨s, [], .error reason⟩

def fingerprintOf (s : State) (line : Nat) (whose : String) (p : Value) : Except String Value :=
  if p.holds then (entry p "Fingerprint" whose).mapError (raised s.path line) else .ok p

def arrayOf (s : State) (line : Nat) (doing : String) : Value → Except String (List Value)
  | .table array _ => .ok array
  | .text _ | .blob _ => .ok []
  | v => .error (raised s.path line
    ("attempt to " ++ doing ++ " a " ++ v.scriptKind ++ " value (local 'paths')"))

def initialise (s : State) (args : List Value) : Except String State := do
  let s := { s with preferences := argument args 0 }
  let array ← arrayOf s 9 "index" (argument args 3)
  return { s with answer := ← fingerprintOf s 9 "field 'integer index'" (array.getD 0 .nil) }

def refresh (s : State) (args : List Value) : Except String State := do
  let array ← arrayOf s 19 "get length of" (argument args 2)
  let last := if border array = 0 then .nil else array.getD (border array - 1) .nil
  return { s with answer := ← fingerprintOf s 19 "field '?'" last }

def pathDown (s : State) (args : List Value) : Except String State := do
  let area ← (entry (argument args 3) "IA" "local 'intf'").mapError (raised s.path 15)
  let id ← (entry (argument args 3) "IfID" "local 'intf'").mapError (raised s.path 15)
  let right ← part s id "IfID"
  let left ← part s area "IA"
  return { s with downed := .text (left ++ "#" ++ right) }
where
  part (s : State) (v : Value) (name : String) : Except String String :=
    match joinable? v with
    | some text => .ok text
    | none => .error (raised s.path 15
      ("attempt to concatenate a " ++ v.scriptKind ++ " value (field '" ++ name ++ "')"))

def profile (s : State) : Except String (List Value) :=
  ((entry s.preferences "profile" "global 'prefs'").mapError (raised s.path 23)).map fun v => [v]

def definition? (function : String) : Option (State → List Value → Effect State) :=
  if function = "Initialize" then some (counted initialise)
  else if function = "SetPreferences" then
    some (counted fun s args => .ok { s with preferences := argument args 0 })
  else if function = "Path" then
    some fun s _ => .pure { s with calls := s.calls + 1 } [s.answer]
  else if function = "PathDown" then some (counted pathDown)
  else if function = "Refresh" then some (counted refresh)
  else if function = "Close" then some (counted fun s _ => .ok s)
  else if function = "Calls" then some fun s _ => .pure s [.integer s.calls]
  else if function = "Profile" then some fun s _ => ⟨s, [], profile s⟩
  else if function = "Downed" then some fun s _ => .pure s [s.downed]
  else if function = "Answer" then some fun s args => .pure { s with answer := argument args 0 } []
  else none

def policy : Policy State where
  load path := .ok ⟨path, 0, .table [] [], .nil, .nil⟩
  binding? _ moduleName function :=
    if moduleName = "panapi" then (definition? function).map .function else none

end Recording

/-! ### A policy that fails, and changes its own modules -/

namespace Unsteady

structure State where
  path : String
  calls : Int64
  /-- What was put under the names of functions since. -/
  replaced : List (String × Value)
  /-- What was put in the place of the module for statistics. -/
  statistics : Option Value

/-- Puts a value under a name. Other keys are kept out of sight, but some are no keys at all. -/
def put (s : State) (line : Nat) (name v : Value) : Except String (List Value × State) :=
  match name with
  | .text name => .ok ([], { s with replaced := Members.insert name v s.replaced })
  | .nil => .error (raised s.path line "table index is nil")
  | .number x =>
    if x.isNaN then .error (raised s.path line "table index is NaN") else .ok ([], s)
  | _ => .ok ([], s)

def path (s : State) : Effect State :=
  ⟨{ s with calls := s.calls + 1 }, [], .error (raised s.path 3 "no path for you")⟩

def close (s : State) : Effect State :=
  let s := { s with calls := s.calls + 1 }
  match Members.find? "Initialize" s.replaced with
  | none => ⟨s, ["panapi.Initialize"], .ok []⟩
  | some v => ⟨s, [], .error (raised s.path 5
    ("attempt to call a " ++ v.scriptKind ++ " value (field 'Initialize')"))⟩

def definition? (function : String) : Option (State → List Value → Effect State) :=
  if function = "Path" then some fun s _ => path s
  else if function = "Close" then some fun s _ => close s
  else if function = "Calls" then some fun s _ => .pure s [.integer s.calls]
  else if function = "Drop" then
    some fun s args => .ofResult s (put s 7 (argument args 0) .nil)
  else if function = "Put" then
    some fun s args => .ofResult s (put s 8 (argument args 0) (argument args 1))
  else if function = "DropModule" then
    some fun s _ => .pure { s with statistics := some .nil } []
  else if function = "ModuleIs" then
    some fun s args => .pure { s with statistics := some (argument args 0) } []
  else none

/-- What stands under a name of a module that is a value now. Only tables have names. -/
def bindingIn (module_ : Value) (function : String) : Binding State :=
  match module_ with
  | .table _ entries =>
    match namedEntry function entries with
    | .nil => .nothing
    | v => .value v
  | _ => .nothing

def policy : Policy State where
  load path := .ok ⟨path, 0, [], none⟩
  binding? s moduleName function :=
    if moduleName = "panapi" then
      match Members.find? function s.replaced with
      | some .nil => some .nothing
      | some v => some (.value v)
      | none => (definition? function).map .function
    else if moduleName = "stats" then s.statistics.map fun v => bindingIn v function
    else none

end Unsteady

/-! ### A policy that returns values of all shapes -/

namespace Shapes

def nested (wrap : Value → Value) : Nat → Value
  | 0 => .table [] []
  | n + 1 => wrap (nested wrap n)

def deep (wrap : Value → Value) (args : List Value) : Value :=
  match argument args 0 with
  | .integer n => nested wrap (min 64 (n.toInt.toNat - 1))
  | _ => .table [] []

def inArray (v : Value) : Value := .table [v] []

def inField (v : Value) : Value := .table [] [(.text "x", v)]

def stringFunctions : List String :=
  ["byte", "char", "dump", "find", "format", "gmatch", "gsub", "len", "lower", "match", "pack",
    "packsize", "rep", "reverse", "sub", "unpack", "upper"]

def lookUp (t k : Value) : Except String Value :=
  match t with
  | .table array entries =>
    match k with
    | .integer n => .ok (if 1 ≤ n.toInt then array.getD (n.toInt.toNat - 1) .nil else .nil)
    | .number x =>
      match Double.integer? x with
      | some n => .ok (if 1 ≤ n then array.getD (n.toNat - 1) .nil else .nil)
      | none => .ok .nil
    | .text name => .ok (namedEntry name entries)
    | _ => .ok .nil
  | .text _ | .blob _ =>
    match k with
    | .text name => .ok (if stringFunctions.contains name then .function else .nil)
    | _ => .ok .nil
  | v => .error ("attempt to index a " ++ v.scriptKind ++ " value (local 't')")

def length (v : Value) : Except String Value :=
  match v with
  | .table array _ => .ok (.integer (Int64.ofInt (border array)))
  | .text s => .ok (.integer (Int64.ofInt s.utf8ByteSize))
  | .blob bytes => .ok (.integer (Int64.ofInt bytes.length))
  | v => .error ("attempt to get length of a " ++ v.scriptKind ++ " value (local 't')")

def typeOf (v : Value) : Value :=
  match Maths.numberType v with
  | .nil => .text v.scriptKind
  | name => name

def constant? (function : String) : Option (List Value) :=
  if function = "Nothing" then some []
  else if function = "OneNil" then some [.nil]
  else if function = "Many" then
    some [.integer 1, .text "two", .nil, .boolean false, .number 2.5, .nil]
  else if function = "IntFloat" then
    some [.integer 3, .number 3, .number (-0.0), .number 1e300, .number Maths.huge,
      .number (-Maths.huge)]
  else if function = "Limits" then
    some [.integer Int64.maxValue, .integer Int64.minValue]
  else if function = "Mixed" then
    some [.table [.integer 1, .integer 2, .integer 3]
      [(.text "1", .text "string one"), (.text "name", .text "n")]]
  else if function = "SparseKeys" then
    some [.table [.text "a", .text "b"]
      [(.integer 10, .text "ten"), (.integer 0, .text "zero"), (.integer (-4), .text "neg")]]
  else if function = "FloatKeyInt" then some [.table [.text "one", .text "two"] []]
  else if function = "FloatKey" then some [.table [] [(.other "number", .text "half")]]
  else if function = "BoolKey" then some [.table [] [(.other "boolean", .integer 1)]]
  else if function = "TableKey" then some [.table [] [(.other "table", .integer 1)]]
  else if function = "Func" then some [.function]
  else if function = "FuncInTable" then some [.table [] [(.text "f", .function)]]
  else if function = "Thread" then some [.thread]
  else if function = "BadBytes" then some [.blob [97, 255, 98]]
  else if function = "BadKey" then some [.table [] [(.blob [107, 255], .integer 1)]]
  else if function = "Cycle" then some [nested inField 64]
  else if function = "CycleSeq" then some [nested inArray 64]
  else if function = "Empty" then some [.table [] []]
  else if function = "Log2" then some [.text "logged"]
  else none

def definition? (function : String) :
    Option (String → List Value → Except String (List Value)) :=
  if function = "Deep" then some fun _ args => .ok [deep inArray args]
  else if function = "DeepField" then some fun _ args => .ok [deep inField args]
  else if function = "Count" then some fun _ args => .ok [.integer (Int64.ofInt args.length)]
  else if function = "Types" then some fun _ args => .ok [.table (args.map typeOf) []]
  else if function = "Len" then
    some fun path args => ((length (argument args 0)).mapError (raised path 29)).map fun v => [v]
  else if function = "Field" then
    some fun path args =>
      ((lookUp (argument args 0) (argument args 1)).mapError (raised path 30)).map fun v => [v]
  else (constant? function).map fun results _ _ => .ok results

def policy : Policy String where
  load path := .ok path
  binding? _ moduleName function :=
    if moduleName = "panapi" then
      (definition? function).map fun f => .function fun path args => ⟨path, [], f path args⟩
    else none

end Shapes
end PathPolicy.Policies
