import PathPolicy.Decimal
import PathPolicy.Float
import PathPolicy.Members

/-!
Values exchanged with a policy script. Unsigned numbers above the signed range travel as their
decimal text, and the unsigned view takes them back.
-/

namespace PathPolicy.Script

/-- A table has a sequence, counted from one, and named fields in ascending order of their
names. -/
inductive Value
  | nil
  | boolean (b : Bool)
  | integer (n : Int64)
  | number (x : Float)
  | text (s : String)
  | table (sequence : List Value) (fields : List (String × Value))

structure Table where
  sequence : List Value
  fields : List (String × Value)

def Table.empty : Table := ⟨[], []⟩

def Table.value (t : Table) : Value := .table t.sequence t.fields

namespace Value

def isNil : Value → Bool
  | nil => true
  | _ => false

def typeName : Value → String
  | nil => "nil"
  | boolean _ => "boolean"
  | integer _ => "integer"
  | number _ => "number"
  | text _ => "string"
  | table _ _ => "table"

/-! ### Views -/

def text? : Value → Option String
  | text s => some s
  | _ => none

def table? : Value → Option Table
  | table sequence fields => some ⟨sequence, fields⟩
  | _ => none

def signedLow : Float := -9223372036854775808.0

def signedEnd : Float := 9223372036854775808.0

def unsignedEnd : Float := 18446744073709551616.0

/-- Whether `x` is a whole number from `low` on and before `stop`. -/
def isIntegralIn (x low stop : Float) : Bool :=
  x.isFinite && Double.fract x == 0 && low ≤ x && x < stop

/-- A whole number in the signed range. Floating-point numbers outside the range are rejected; the
conversion would take them to its ends. -/
def signed? : Value → Option Int64
  | integer n => some n
  | number x => if isIntegralIn x signedLow signedEnd then some x.toModel.toInt64 else none
  | _ => none

/-- A whole number in the unsigned range: an integer, a floating-point number that is whole, or
a decimal text. -/
def unsigned? : Value → Option UInt64
  | integer n => if 0 ≤ n.toInt then some (UInt64.ofNat n.toInt.toNat) else none
  | number x => if isIntegralIn x 0 unsignedEnd then some x.toUInt64 else none
  | text s => Decimal.unsigned? s
  | _ => none

def float? : Value → Option Float
  | integer n => some (Double.ofInt n.toInt)
  | number x => some x
  | _ => none

/-! ### Making values -/

def ofUInt64 (n : UInt64) : Value :=
  if n.toNat ≤ Int64.maxValue.toInt then integer (Int64.ofInt n.toNat)
  else text (String.ofList (Decimal.ofNat n.toNat))

def ofUInt32 (n : UInt32) : Value := integer (Int64.ofInt n.toNat)

def ofNat (n : Nat) : Value := integer (Int64.ofInt n)

def ofOption {α : Type} (value : α → Value) : Option α → Value
  | none => nil
  | some x => value x

def ofList {α : Type} (value : α → Value) (xs : List α) : Value := table (xs.map value) []

@[simp] theorem unsigned?_ofUInt64 (n : UInt64) : (ofUInt64 n).unsigned? = some n := by
  have hsize : n.toNat < UInt64.size := n.toNat_lt
  rw [ofUInt64]
  split
  next hsigned =>
    have hmax : Int64.maxValue.toInt = 2 ^ 63 - 1 := by decide
    have hn : (Int64.ofInt n.toNat).toInt = n.toNat :=
      Int64.toInt_ofInt_of_le (by omega) (by omega)
    rw [unsigned?, hn, if_pos (by omega), Int.toNat_natCast, UInt64.ofNat_toNat]
  next => rw [unsigned?, Decimal.unsigned?_ofNat hsize, UInt64.ofNat_toNat]

end Value

namespace Table

/-- Nil is not stored: setting a field to it removes the field. -/
def set (t : Table) (key : String) (v : Value) : Table :=
  if v.isNil then { t with fields := Members.erase key t.fields }
  else { t with fields := Members.insert key v t.fields }

def get? (t : Table) (key : String) : Option Value := Members.find? key t.fields

def ofFields (fields : List (String × Value)) : Table :=
  fields.foldl (fun t (key, v) => t.set key v) empty

end Table
end PathPolicy.Script
