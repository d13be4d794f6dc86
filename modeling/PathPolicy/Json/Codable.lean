import PathPolicy.Float
import PathPolicy.Json.Tree
import Std.Data.ExtTreeMap

/-!
Types with a JSON form: read from a text, taken from a value of any shape, and written. A
text and a value are refused for the same causes, but a value is complete before it is
looked at.
-/

namespace PathPolicy.Json

class Codable (α : Type) where
  read : Budget → Bytes → Except Failure (α × Bytes)
  ofValue : Value → Except Cause α
  write : α → Bytes

def decode {α : Type} [Codable α] (text : Bytes) : Except Error α := readWhole Codable.read text

def fromValue {α : Type} [Codable α] (v : Value) : Except Error α :=
  (Codable.ofValue v).mapError fun cause => ⟨cause, none⟩

def encode {α : Type} [Codable α] (x : α) : Bytes := Codable.write x

def mismatch {α : Type} (expected : String) (v : Value) : Except Cause α :=
  .error (.invalidType (.ofValue v) expected)

instance : Codable Value := ⟨Value.read, .ok, Value.write⟩

/-! ### Words, numbers and strings -/

instance : Codable Bool where
  read budget text := do
    let (b, rest) ← atValue text
    if b = 116 then return (true, ← word rue rest)
    else if b = 102 then return (false, ← word alse rest)
    else refuse "a boolean" budget (b :: rest)
  ofValue
    | .boolean b => .ok b
    | v => mismatch "a boolean" v
  write := writeBoolean

instance : Codable String where
  read budget text := do
    let (b, rest) ← atValue text
    if b = 34 then readText budget.steps rest else refuse "a string" budget (b :: rest)
  ofValue
    | .text s => .ok s
    | v => mismatch "a string" v
  write := writeText

structure Numeric (α : Type) where
  expected : String
  take : Number → Except Cause α

def Numeric.read {α : Type} (t : Numeric α) (budget : Budget) (text : Bytes) :
    Except Failure (α × Bytes) := do
  let (b, rest) ← atValue text
  if b = 45 || isDigit b then
    let (n, rest) ← readNumber (b :: rest)
    match t.take n with
    | .ok x => return (x, rest)
    | .error cause => fail cause rest
  else refuse t.expected budget (b :: rest)

def Numeric.ofValue {α : Type} (t : Numeric α) : Value → Except Cause α
  | .number n => t.take n
  | v => mismatch t.expected v

/-- Whole numbers from `low` to `high`; a floating-point number is refused even where it is
whole. -/
def wholeBetween {α : Type} (expected : String) (low high : Int) (make : Int → α) : Numeric α where
  expected := expected
  take
    | .real x => .error (.invalidType (.real x) expected)
    | .natural n => within n.toNat
    | .negative n => within n.toInt
where
  within (n : Int) : Except Cause α :=
    if low ≤ n ∧ n ≤ high then .ok (make n) else .error (.invalidValue (.integer n) expected)

@[reducible] def Numeric.codable {α : Type} (t : Numeric α) (write : α → Bytes) : Codable α :=
  ⟨t.read, t.ofValue, write⟩

def writeNat (n : Nat) : Bytes := ofChars (Decimal.ofNat n)

def writeInt (n : Int) : Bytes := ofChars (Decimal.ofInt n)

instance : Codable UInt8 :=
  (wholeBetween "u8" 0 (UInt8.size - 1) fun n => UInt8.ofNat n.toNat).codable
    fun n => writeNat n.toNat

instance : Codable UInt16 :=
  (wholeBetween "u16" 0 (UInt16.size - 1) fun n => UInt16.ofNat n.toNat).codable
    fun n => writeNat n.toNat

instance : Codable UInt32 :=
  (wholeBetween "u32" 0 (UInt32.size - 1) fun n => UInt32.ofNat n.toNat).codable
    fun n => writeNat n.toNat

instance : Codable UInt64 :=
  (wholeBetween "u64" 0 (UInt64.size - 1) fun n => UInt64.ofNat n.toNat).codable
    fun n => writeNat n.toNat

instance : Codable Int64 :=
  (wholeBetween "i64" Int64.minValue.toInt Int64.maxValue.toInt Int64.ofInt).codable
    fun n => writeInt n.toInt

def single : Numeric Float32 where
  expected := "f32"
  take
    | .natural n => .ok n.toFloat32
    | .negative n => .ok (.ofModel (.ofInt n.toInt))
    | .real x => .ok (Single.ofDouble x)

instance : Codable Float32 := single.codable writeFloat32

/-! ### Absence, lists and maps -/

instance {α : Type} [Codable α] : Codable (Option α) where
  read budget text :=
    match skipSpace text with
    | 110 :: rest => (word ull rest).map fun rest => (none, rest)
    | text => (Codable.read budget text).map fun (x, rest) => (some x, rest)
  ofValue
    | .null => .ok none
    | v => (Codable.ofValue v).map some
  write
    | none => writeNull
    | some x => Codable.write x

instance {α : Type} [Codable α] : Codable (List α) where
  read budget text := readList "a sequence" Codable.read budget text
  ofValue
    | .array items => items.mapM Codable.ofValue
    | v => mismatch "a sequence" v
  write items := writeList (items.map Codable.write)

abbrev Texts := Std.ExtTreeMap String String

instance : Codable Texts where
  read budget text := do
    let (b, rest) ← atValue text
    if b = 123 then
      budget.enter (b :: rest) fun inner =>
        closing closeObject <| readMembers (fun (map : Texts) name text => do
          let text ← readColon text
          let (s, text) ← Codable.read inner text
          return (map.insert name s, text)) budget.steps budget.steps true ∅ rest
    else refuse "a map" budget (b :: rest)
  ofValue
    | .object members => do
      let entries ← members.mapM fun (name, v) => return (name, ← Codable.ofValue v)
      return .ofList entries
    | v => mismatch "a map" v
  write map := writeObject (map.toList.map fun (name, s) => (name, writeText s))

/-! ### Named variants -/

/-- A name among a few, as a string or as an object whose only member is null. -/
def readVariant {α : Type} (variants : List (String × α)) (budget : Budget) (text : Bytes) :
    Except Failure (α × Bytes) := do
  let (b, rest) ← atValue text
  if b = 34 then named rest
  else if b = 123 then
    budget.enter (b :: rest) fun inner => do
      let (b, rest) ← atValue rest
      let (x, rest) ← if b = 34 then named rest else refuse "variant identifier" inner (b :: rest)
      let rest ← readColon rest
      let (b, rest) ← atValue rest
      let rest ← if b = 110 then word ull rest else refuse "unit" inner (b :: rest)
      match skipSpace rest with
      | [] => fail .endOfObject []
      | c :: rest => if c = 125 then return (x, rest) else fail .expectedValue (c :: rest)
  else failNext .expectedValue (b :: rest)
where
  named (text : Bytes) : Except Failure (α × Bytes) := do
    let (name, rest) ← readText budget.steps text
    match Members.find? name variants with
    | some x => return (x, rest)
    | none => fail (.unknownVariant name (variants.map Prod.fst)) rest

def variantOfValue {α : Type} (variants : List (String × α)) : Value → Except Cause α
  | .text name => named name
  | .object [(name, v)] => do
    let x ← named name
    match v with
    | .null => return x
    | v => mismatch "unit" v
  | .object _ => .error (.invalidValue .map "map with a single key")
  | v => mismatch "string or map" v
where
  named (name : String) : Except Cause α :=
    match Members.find? name variants with
    | some x => .ok x
    | none => .error (.unknownVariant name (variants.map Prod.fst))

end PathPolicy.Json
