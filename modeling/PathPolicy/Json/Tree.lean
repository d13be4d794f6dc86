import PathPolicy.Json.Read

/-! JSON values of any shape: reading them, and their shortest text. -/

namespace PathPolicy.Json

/-- An object whose first member has this name stands for another value, whose text the member
is. -/
def embeddedName : String := "$serde_json::private::RawValue"

def readArray (item : Bytes → Except Failure (Value × Bytes)) (steps : Nat) (text : Bytes) :
    Except Failure (Value × Bytes) := do
  let (items, rest) ← readElements item steps true text
  return (.array items, ← closeList rest)

def readStandIn (embedded : Bytes → Except Cause Value) (budget : Budget) (text : Bytes) :
    Except Failure (Value × Bytes) := do
  let (b, rest) ← atValue text
  let (s, rest) ←
    if b = 34 then readText budget.steps rest else refuse "raw value" budget (b :: rest)
  match embedded (Bytes.ofText s) with
  | .ok v => return (v, ← closeObject rest)
  | .error cause => fail cause rest

def insertMember (item : Bytes → Except Failure (Value × Bytes)) (members : List (String × Value))
    (name : String) (text : Bytes) : Except Failure (List (String × Value) × Bytes) := do
  let text ← readColon text
  let (value, text) ← item text
  return (Members.insert name value members, text)

def readTree (embedded : Bytes → Except Cause Value)
    (item : Bytes → Except Failure (Value × Bytes)) (budget : Budget) (text : Bytes) :
    Except Failure (Value × Bytes) := do
  let (more, text) ← nextMember true text
  if more then
    let (name, text) ← readText budget.steps text.tail
    let text ← readColon text
    if name = embeddedName then readStandIn embedded budget text
    else
      let (value, text) ← item text
      let (members, text) ←
        readMembers (insertMember item) budget.steps budget.steps false [(name, value)] text
      return (.object members, ← closeObject text)
  else return (.object [], ← closeObject text)

/-- Reads a value that may hold `depth` levels of lists and objects. Texts of values inside
strings are read by `embedded`. -/
def readValue (embedded : Bytes → Except Cause Value) (steps : Nat) :
    (depth : Nat) → Bytes → Except Failure (Value × Bytes)
  | depth, text => do
    let (b, rest) ← atValue text
    if b = 110 then return (.null, ← word ull rest)
    else if b = 116 then return (.boolean true, ← word rue rest)
    else if b = 102 then return (.boolean false, ← word alse rest)
    else if b = 45 || isDigit b then
      let (n, rest) ← readNumber (b :: rest)
      return (.number n, rest)
    else if b = 34 then
      let (s, rest) ← readText steps rest
      return (.text s, rest)
    else if b = 91 || b = 123 then
      match depth with
      | 0 => failNext .tooDeep (b :: rest)
      | depth + 1 =>
        if b = 91 then readArray (readValue embedded steps depth) steps rest
        else readTree embedded (readValue embedded steps depth) ⟨depth, steps⟩ rest
    else failNext .expectedValue (b :: rest)

/-- Reads a whole text from inside a string. It can embed texts in turn, which are shorter than
it; the first argument bounds how often. -/
def readEmbedded : Nat → Bytes → Except Cause Value
  | 0, _ => .error .endOfValue
  | n + 1, text =>
    (readWhole (fun budget text => readValue (readEmbedded n) budget.steps budget.depth text)
      text).mapError Error.cause

def Value.read (budget : Budget) (text : Bytes) : Except Failure (Value × Bytes) :=
  readValue (readEmbedded budget.steps) budget.steps budget.depth text

/-! ### Writing -/

def ofChars (cs : List Char) : Bytes := cs.map fun c => UInt8.ofNat c.toNat

def hexLetter (n : Nat) : UInt8 := UInt8.ofNat (if n < 10 then 48 + n else 87 + n)

def escape (b : UInt8) : Bytes :=
  if b = 34 then [92, 34]
  else if b = 92 then [92, 92]
  else if b = 8 then [92, 98]
  else if b = 9 then [92, 116]
  else if b = 10 then [92, 110]
  else if b = 12 then [92, 102]
  else if b = 13 then [92, 114]
  else if b < 32 then [92, 117, 48, 48, hexLetter (b.toNat / 16), hexLetter (b.toNat % 16)]
  else [b]

def writeText (s : String) : Bytes := 34 :: (Bytes.ofText s).flatMap escape ++ [34]

def writeNull : Bytes := [110, 117, 108, 108]

def writeBoolean (b : Bool) : Bytes := if b then [116, 114, 117, 101] else [102, 97, 108, 115, 101]

def writeFloat (x : Float) : Bytes :=
  match Decimal.ofFloat? x with
  | some cs => ofChars cs
  | none => writeNull

def writeFloat32 (x : Float32) : Bytes :=
  match Decimal.ofFloat32? x with
  | some cs => ofChars cs
  | none => writeNull

def writeNumber : Number → Bytes
  | .natural n => ofChars (Decimal.ofNat n.toNat)
  | .negative n => ofChars (Decimal.ofInt n.toInt)
  | .real x => writeFloat x

def separated : List Bytes → Bytes
  | [] => []
  | [part] => part
  | part :: parts => part ++ 44 :: separated parts

def writeList (items : List Bytes) : Bytes := 91 :: separated items ++ [93]

def writeMember (name : String) (value : Bytes) : Bytes := writeText name ++ 58 :: value

def writeObject (members : List (String × Bytes)) : Bytes :=
  123 :: separated (members.map fun (name, value) => writeMember name value) ++ [125]

mutual

def Value.write : Value → Bytes
  | .null => writeNull
  | .boolean b => writeBoolean b
  | .number n => writeNumber n
  | .text s => writeText s
  | .array items => writeList (writeItems items)
  | .object members => writeObject (writeFields members)

def writeItems : List Value → List Bytes
  | [] => []
  | v :: rest => v.write :: writeItems rest

def writeFields : List (String × Value) → List (String × Bytes)
  | [] => []
  | (name, v) :: rest => (name, v.write) :: writeFields rest

end

end PathPolicy.Json
