import PathPolicy.Decimal.General
import PathPolicy.Float
import PathPolicy.Script.Value
import PathPolicy.Vm.Numeral

/-!
Values inside the machine that runs a script. A table has an array, whose entries may be nil,
and entries under other keys.
-/

namespace PathPolicy.Vm

/-- A key outside the array. Keys that are neither whole numbers nor strings are known by their
kind only. -/
inductive Key
  | integer (n : Int64)
  | text (s : String)
  | blob (bytes : Bytes)
  | other (kind : String)

inductive Value
  | nil
  | boolean (b : Bool)
  | integer (n : Int64)
  | number (x : Float)
  | text (s : String)
  /-- A string that is no well-formed text. -/
  | blob (bytes : Bytes)
  | table (array : List Value) (entries : List (Key × Value))
  | function
  | thread

namespace Value

def kind : Value → String
  | nil => "nil"
  | boolean _ => "boolean"
  | integer _ => "integer"
  | number _ => "number"
  | text _ | blob _ => "string"
  | table _ _ => "table"
  | function => "function"
  | thread => "thread"

def scriptKind : Value → String
  | integer _ => "number"
  | v => v.kind

def isNil : Value → Bool
  | nil => true
  | _ => false

def holds : Value → Bool
  | nil => false
  | boolean b => b
  | _ => true

end Value

/-! ### Tables -/

/-- Where an array ends: there is an entry at the end, and none after it. With nil entries there
can be several such places; the search takes the last place or the one before it if it can, and
else goes by halves. -/
def border (array : List Value) : Nat :=
  let n := array.length
  let filled (i : Nat) : Bool := !(array.getD i .nil).isNil
  if n = 0 then 0
  else if filled (n - 1) then n
  else if 2 ≤ n ∧ filled (n - 2) then n - 1
  else halve filled n 0 n
where
  halve (filled : Nat → Bool) : Nat → Nat → Nat → Nat
    | 0, low, _ => low
    | k + 1, low, high =>
      if high - low ≤ 1 then low
      else
        let middle := (low + high) / 2
        if filled (middle - 1) then halve filled k middle high else halve filled k low middle

def sequenceOf (array : List Value) : List Value := array.takeWhile fun v => !v.isNil

def namedEntry (name : String) : List (Key × Value) → Value
  | [] => .nil
  | (.text s, v) :: rest => if s = name then v else namedEntry name rest
  | _ :: rest => namedEntry name rest

/-! ### Numbers -/

def numeral? (s : String) : Option Value :=
  (Numeral.ofText? s).map fun
    | .integer n => .integer n
    | .real x => .number x

def arithmetic? : Value → Option Value
  | .integer n => some (.integer n)
  | .number x => some (.number x)
  | .text s => numeral? s
  | _ => none

/-- Whole numbers are added and multiplied in 64 bits and wrap around. -/
def addNumbers : Value → Value → Value
  | .integer a, .integer b => .integer (a + b)
  | .integer a, .number y => .number (Double.ofInt a.toInt + y)
  | .number x, .integer b => .number (x + Double.ofInt b.toInt)
  | .number x, .number y => .number (x + y)
  | _, _ => .nil

def floatOf : Value → Float
  | .integer n => Double.ofInt n.toInt
  | .number x => x
  | _ => 0

/-- Comparison by the exact values of the numbers. -/
def lessNumbers : Value → Value → Bool
  | .integer a, .integer b => a.toInt < b.toInt
  | .integer a, .number y => Double.intLt a.toInt y
  | .number x, .integer b => Double.ltInt x b.toInt
  | .number x, .number y => x < y
  | _, _ => false

def refusedOperand (verb name : String) : Value → String
  | .text _ | .blob _ => "attempt to " ++ verb ++ " a 'number' with a 'string'"
  | v => "attempt to perform arithmetic on a " ++ v.scriptKind ++ " value (local '" ++ name ++ "')"

def bytes? : Value → Option Bytes
  | .text s => some (Bytes.ofText s)
  | .blob bytes => some bytes
  | _ => none

def isNumber : Value → Bool
  | .integer _ | .number _ => true
  | _ => false

/-- Whether one value is less than another. Numbers are compared with numbers, and strings byte by
byte. -/
def less (a b : Value) : Except String Bool :=
  if isNumber a && isNumber b then .ok (lessNumbers a b)
  else
    match bytes? a, bytes? b with
    | some x, some y => .ok (x < y)
    | _, _ =>
      if a.scriptKind = b.scriptKind then
        .error ("attempt to compare two " ++ a.scriptKind ++ " values")
      else .error ("attempt to compare " ++ a.scriptKind ++ " with " ++ b.scriptKind)

def joinable? : Value → Option String
  | .text s => some s
  | .integer n => some (String.ofList (Decimal.ofInt n.toInt))
  | .number x => some (String.ofList (Decimal.generalOfFloat x))
  | _ => none

end PathPolicy.Vm
