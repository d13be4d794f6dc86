import PathPolicy.Members

/-! JSON values of any shape. -/

namespace PathPolicy.Json

/-- A whole number that fits 64 bits keeps its exact value; any other number is a finite
floating-point number. -/
inductive Number
  | natural (n : UInt64)
  | negative (n : Int64)
  | real (x : Float)
deriving DecidableEq

/-- The members of an object are in ascending order of their names. -/
inductive Value
  | null
  | boolean (b : Bool)
  | number (n : Number)
  | text (s : String)
  | array (items : List Value)
  | object (members : List (String × Value))

end PathPolicy.Json
