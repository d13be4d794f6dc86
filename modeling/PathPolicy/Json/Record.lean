import PathPolicy.Json.Codable

/-!
Records: objects with fixed member names, each given once and in any order. A list is read as
a record too, its elements in the order of the fields.
-/

namespace PathPolicy.Json

inductive Absence
  /-- The record is refused. -/
  | refused
  /-- In an object the field keeps its start value; a list must give it. -/
  | allowed
  /-- The field keeps its start value. -/
  | defaulted
deriving DecidableEq

structure Field (ρ : Type) where
  name : String
  absence : Absence
  read : Budget → Bytes → Except Failure ((ρ → ρ) × Bytes)
  ofValue : Value → Except Cause (ρ → ρ)
  /-- A field without a written form is left out. -/
  write : ρ → Option Bytes

def Field.of {ρ α : Type} [Codable α] (name : String) (absence : Absence) (get : ρ → α)
    (set : ρ → α → ρ) : Field ρ where
  name := name
  absence := absence
  read budget text := (Codable.read budget text).map fun (x, rest) => (fun r => set r x, rest)
  ofValue v := (Codable.ofValue v).map fun x r => set r x
  write r := some (Codable.write (get r))

def Field.sparse {ρ α : Type} [Codable α] (name : String) (get : ρ → Option α)
    (set : ρ → Option α → ρ) : Field ρ where
  name := name
  absence := .defaulted
  read budget text := (Codable.read budget text).map fun (x, rest) => (fun r => set r x, rest)
  ofValue v := (Codable.ofValue v).map fun x r => set r x
  write r := (get r).map Codable.write

structure Record (ρ : Type) where
  name : String
  start : ρ
  fields : List (Field ρ)
  /-- Whether members of other names are passed over instead of refused. -/
  lenient : Bool

variable {ρ : Type}

def Record.expected (r : Record ρ) : String := "struct " ++ r.name

def Record.expectedLength (r : Record ρ) : String :=
  r.expected ++ " with " ++ String.ofList (Decimal.ofNat r.fields.length)
    ++ (if r.fields.length = 1 then " element" else " elements")

def Record.missing? (r : Record ρ) (given : List String) : Option (Field ρ) :=
  r.fields.find? fun f => f.absence = .refused && !given.contains f.name

/-- One member: its name is looked up before its value is read. -/
def Record.readMember (r : Record ρ) (budget : Budget) (state : List String × ρ) (name : String)
    (text : Bytes) : Except Failure ((List String × ρ) × Bytes) :=
  match r.fields.find? fun f => f.name = name with
  | none =>
    if r.lenient then do
      let text ← readColon text
      return (state, ← skipValue budget.steps text)
    else failWhole (.unknownField name (r.fields.map Field.name)) text
  | some f =>
    if state.1.contains name then failWhole (.duplicateField name) text
    else do
      let text ← readColon text
      let (update, text) ← f.read budget text
      return ((name :: state.1, update state.2), text)

def Record.readObject (r : Record ρ) (budget : Budget) (text : Bytes) :
    Except Failure (ρ × Bytes) := do
  let ((given, x), rest) ←
    readMembers (r.readMember budget) budget.steps budget.steps true ([], r.start) text
  match r.missing? given with
  | some f => failWhole (.missingField f.name) rest
  | none => return (x, rest)

def Record.readFields (r : Record ρ) (budget : Budget) :
    List (Field ρ) → Nat → ρ → Bytes → Except Failure (ρ × Bytes)
  | [], _, x, text => .ok (x, text)
  | f :: fields, n, x, text => do
    let (more, text) ← nextElement (n = 0) text
    if more then
      let (update, text) ← f.read budget text
      r.readFields budget fields (n + 1) (update x) text
    else if f.absence = .defaulted then r.readFields budget fields n x text
    else failWhole (.invalidLength n r.expectedLength) text

def Record.read (r : Record ρ) (budget : Budget) (text : Bytes) : Except Failure (ρ × Bytes) := do
  let (b, rest) ← atValue text
  if b = 91 then
    budget.enter (b :: rest) fun inner =>
      closing closeList (r.readFields inner r.fields 0 r.start rest)
  else if b = 123 then
    budget.enter (b :: rest) fun inner => closing closeObject (r.readObject inner rest)
  else refuse r.expected budget (b :: rest)

def Record.takeMembers (r : Record ρ) :
    List (String × Value) → List String × ρ → Except Cause (List String × ρ)
  | [], state => .ok state
  | (name, v) :: rest, state =>
    match r.fields.find? fun f => f.name = name with
    | none =>
      if r.lenient then r.takeMembers rest state
      else .error (.unknownField name (r.fields.map Field.name))
    | some f => do
      let update ← f.ofValue v
      r.takeMembers rest (name :: state.1, update state.2)

def Record.takeItems (r : Record ρ) : List (Field ρ) → List Value → Nat → ρ → Except Cause ρ
  | [], [], _, x => .ok x
  | [], rest, n, _ => .error (.invalidLength (n + rest.length) "fewer elements in array")
  | f :: fields, [], n, x =>
    if f.absence = .defaulted then r.takeItems fields [] n x
    else .error (.invalidLength n r.expectedLength)
  | f :: fields, v :: rest, n, x => do
    let update ← f.ofValue v
    r.takeItems fields rest (n + 1) (update x)

def Record.ofValue (r : Record ρ) : Value → Except Cause ρ
  | .array items => r.takeItems r.fields items 0 r.start
  | .object members => do
    let (given, x) ← r.takeMembers members ([], r.start)
    match r.missing? given with
    | some f => .error (.missingField f.name)
    | none => return x
  | v => mismatch r.expected v

def Record.write (r : Record ρ) (x : ρ) : Bytes :=
  writeObject (r.fields.filterMap fun f => (f.write x).map fun value => (f.name, value))

@[reducible] def Record.codable (r : Record ρ) : Codable ρ := ⟨r.read, r.ofValue, r.write⟩

end PathPolicy.Json
