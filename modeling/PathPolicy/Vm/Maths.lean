import PathPolicy.Vm.Policy

/-! The mathematical functions that every script finds under the name `math`. -/

namespace PathPolicy.Vm.Maths

def huge : Float := 1.0 / 0.0

def pi : Float := 3.141592653589793

/-! ### Arguments -/

def badArgument (i : Nat) (function reason : String) : String :=
  "bad argument #" ++ String.ofList (Decimal.ofNat i) ++ " to 'math." ++ function ++ "' ("
    ++ reason ++ ")"

def wrongArgument (i : Nat) (function : String) (args : List Value) : String :=
  badArgument i function ("number expected, got "
    ++ (match args[i - 1]? with | some v => v.scriptKind | none => "no value"))

def number? : Value → Option Value
  | .text s => (numeral? s).map fun v => .number (floatOf v)
  | v => arithmetic? v

def numberAt (function : String) (args : List Value) (i : Nat) : Except String Value :=
  match (args[i - 1]?).bind number? with
  | some v => .ok v
  | none => .error (wrongArgument i function args)

def floatAt (function : String) (args : List Value) (i : Nat) : Except String Float :=
  (numberAt function args i).map floatOf

/-- A whole number if the signed range holds it. -/
def wholeOr (x : Float) : Value :=
  match Double.integer? x with
  | some n =>
    if Int64.minValue.toInt ≤ n ∧ n ≤ Int64.maxValue.toInt then .integer (Int64.ofInt n)
    else .number x
  | none => .number x

def toInteger? (v : Value) : Option Int64 :=
  match arithmetic? v with
  | some (.integer n) => some n
  | some (.number x) => match wholeOr x with | .integer n => some n | _ => none
  | _ => none

def integerAt (function : String) (args : List Value) (i : Nat) : Except String Int64 := do
  let _ ← numberAt function args i
  match (args[i - 1]?).bind toInteger? with
  | some n => return n
  | none => .error (badArgument i function "number has no integer representation")

def isMissing (args : List Value) (i : Nat) : Bool := (args[i - 1]?).all Value.isNil

def anyValue (function : String) : List Value → Except String Value
  | v :: _ => .ok v
  | [] => .error (badArgument 1 function "value expected")

/-! ### Functions -/

abbrev Function := List Value → Except String (List Value)

def real (name : String) (f : Float → Float) : Function := fun args => do
  return [.number (f (← floatAt name args 1))]

def rounded (name : String) (round : Float → Float) : Function := fun args => do
  match ← numberAt name args 1 with
  | .number x => return [wholeOr (round x)]
  | v => return [v]

def absolute : Function := fun args => do
  match ← numberAt "abs" args 1 with
  | .integer n => return [.integer (if n < 0 then -n else n)]
  | v => return [.number (floatOf v).abs]

def best (name : String) (better : Value → Value → Except String Bool) : Function
  | [] => .error (badArgument 1 name "value expected")
  | first :: rest => do
    let v ← rest.foldlM (fun best v => do return if ← better v best then v else best) first
    return [v]

def numberType : Value → Value
  | .integer _ => .text "integer"
  | .number _ => .text "float"
  | _ => .nil

/-- The remainder of a division towards zero. Of two arguments that are no numbers the second one
is refused. -/
def remainder : Function
  | .integer m :: .integer n :: _ =>
    if n = 0 then .error (badArgument 2 "fmod" "zero")
    else if n = -1 then .ok [.integer 0]
    else .ok [.integer (m % n)]
  | args => do
    let y ← floatAt "fmod" args 2
    let x ← floatAt "fmod" args 1
    return [.number (Double.remainder x y)]

def parts : Function := fun args => do
  match ← numberAt "modf" args 1 with
  | .integer n => return [.integer n, .number 0]
  | v =>
    let x := floatOf v
    let whole := if x < 0 then x.ceil else x.floor
    return [wholeOr whole, .number (if x == whole then 0 else x - whole)]

def logarithm : Function := fun args => do
  let x ← floatAt "log" args 1
  if isMissing args 2 then return [.number x.log]
  else
    let base ← floatAt "log" args 2
    return [.number (if base == 2 then x.log2 else if base == 10 then x.log10
      else x.log / base.log)]

def arcTangent : Function := fun args => do
  let y ← floatAt "atan" args 1
  let x ← if isMissing args 2 then pure 1 else floatAt "atan" args 2
  return [.number (Float.atan2 y x)]

def unsignedLess : Function := fun args => do
  let m ← integerAt "ult" args 1
  let n ← integerAt "ult" args 2
  return [.boolean (m.toUInt64 < n.toUInt64)]

def power : Function := fun args => do
  let x ← floatAt "pow" args 1
  let y ← floatAt "pow" args 2
  return [.number (x.pow y)]

def scientific : Function := fun args => do
  let (m, e) := (← floatAt "frexp" args 1).frExp
  return [.number m, .integer (Int64.ofInt e)]

def scaled : Function := fun args => do
  let x ← floatAt "ldexp" args 1
  let e ← integerAt "ldexp" args 2
  return [.number (x.scaleB e.toInt32.toInt)]

def function? (name : String) : Option Function :=
  if name = "floor" then some (rounded name Float.floor)
  else if name = "ceil" then some (rounded name Float.ceil)
  else if name = "abs" then some absolute
  else if name = "fmod" then some remainder
  else if name = "modf" then some parts
  else if name = "max" then some (best name fun v best => less best v)
  else if name = "min" then some (best name less)
  else if name = "type" then some fun args => do return [numberType (← anyValue name args)]
  else if name = "tointeger" then some fun args => do
    match toInteger? (← anyValue name args) with
    | some n => return [.integer n]
    | none => return [.nil]
  else if name = "ult" then some unsignedLess
  else if name = "sqrt" then some (real name Float.sqrt)
  else if name = "exp" then some (real name Float.exp)
  else if name = "log" then some logarithm
  else if name = "sin" then some (real name Float.sin)
  else if name = "cos" then some (real name Float.cos)
  else if name = "tan" then some (real name Float.tan)
  else if name = "asin" then some (real name Float.asin)
  else if name = "acos" then some (real name Float.acos)
  else if name = "atan" then some arcTangent
  else if name = "deg" then some (real name fun x => x * (180.0 / pi))
  else if name = "rad" then some (real name fun x => x * (pi / 180.0))
  else if name = "sinh" then some (real name Float.sinh)
  else if name = "cosh" then some (real name Float.cosh)
  else if name = "tanh" then some (real name Float.tanh)
  else if name = "log10" then some (real name Float.log10)
  else if name = "pow" then some power
  else if name = "frexp" then some scientific
  else if name = "ldexp" then some scaled
  else none

/-! ### Drawing numbers -/

def between (word : UInt64) (low high : Int64) (g : Generator) :
    Except String (List Value) × Generator :=
  if low ≤ high then
    let (n, g) := Generator.below word (high.toUInt64 - low.toUInt64) g
    (.ok [.integer (low.toUInt64 + n).toInt64], g)
  else (.error (badArgument 2 "random" "interval is empty"), g)

def random (g : Generator) (args : List Value) : Except String (List Value) × Generator :=
  let (word, g) := g.next
  match args with
  | [] => (.ok [.number (Generator.fraction word)], g)
  | [_] =>
    match integerAt "random" args 1 with
    | .error e => (.error e, g)
    | .ok high => if high = 0 then (.ok [.integer word.toInt64], g) else between word 1 high g
  | [_, _] =>
    match integerAt "random" args 1, integerAt "random" args 2 with
    | .error e, _ | _, .error e => (.error e, g)
    | .ok low, .ok high => between word low high g
  | _ => (.error "wrong number of arguments", g)

def reseed (g : Generator) (args : List Value) : Except String (List Value) × Generator :=
  let seed : Except String (UInt64 × UInt64) :=
    if args.isEmpty then .ok (g.next.1, g.next.2.next.1)
    else do
      let m ← integerAt "randomseed" args 1
      let n ← if isMissing args 2 then pure 0 else integerAt "randomseed" args 2
      return (m.toUInt64, n.toUInt64)
  match seed with
  | .error e => (.error e, g)
  | .ok (m, n) => (.ok [.integer m.toInt64, .integer n.toInt64], .ofSeed m n)

/-! ### The module -/

def constant? (name : String) : Option Value :=
  if name = "huge" then some (.number huge)
  else if name = "pi" then some (.number pi)
  else if name = "maxinteger" then some (.integer Int64.maxValue)
  else if name = "mininteger" then some (.integer Int64.minValue)
  else none

def binding {σ : Type} (name : String) : Binding σ :=
  if name = "random" then .drawing random
  else if name = "randomseed" then .drawing reseed
  else
    match constant? name, function? name with
    | some v, _ => .value v
    | none, some f => .function fun s args => ⟨s, [], f args⟩
    | none, none => .nothing

end PathPolicy.Vm.Maths
