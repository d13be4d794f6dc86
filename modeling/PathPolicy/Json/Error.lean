import PathPolicy.Bytes
import PathPolicy.Decimal.Shortest
import PathPolicy.Json.Value
import PathPolicy.Text.Literal

/-! Why a JSON text is refused, and where in the text. -/

namespace PathPolicy.Json

inductive Found
  | null
  | boolean (b : Bool)
  | integer (n : Int)
  | real (x : Float)
  | text (s : String)
  | sequence
  | map

def Found.ofNumber : Number → Found
  | .natural n => .integer n.toNat
  | .negative n => .integer n.toInt
  | .real x => .real x

def Found.ofValue : Value → Found
  | .null => .null
  | .boolean b => .boolean b
  | .number n => .ofNumber n
  | .text s => .text s
  | .array _ => .sequence
  | .object _ => .map

inductive Cause
  | endOfList
  | endOfObject
  | endOfString
  | endOfValue
  | expectedColon
  | expectedListSeparator
  | expectedObjectSeparator
  | expectedWord
  | expectedValue
  | invalidEscape
  | invalidNumber
  | numberOutOfRange
  | invalidCodePoint
  | controlCharacter
  | keyNotText
  | loneSurrogate
  | trailingComma
  | trailingCharacters
  | unfinishedSurrogate
  | tooDeep
  | invalidType (found : Found) (expected : String)
  | invalidValue (found : Found) (expected : String)
  | invalidLength (length : Nat) (expected : String)
  | unknownField (name : String) (known : List String)
  | unknownVariant (name : String) (known : List String)
  | missingField (name : String)
  | duplicateField (name : String)

def Found.message : Found → String
  | .null => "null"
  | .boolean b => "boolean `" ++ (if b then "true" else "false") ++ "`"
  | .integer n => "integer `" ++ String.ofList (Decimal.ofInt n) ++ "`"
  | .real x => "floating point `" ++ String.ofList ((Decimal.ofFloat? x).getD []) ++ "`"
  | .text s => "string " ++ Text.literal s
  | .sequence => "sequence"
  | .map => "map"

def ticked (name : String) : String := "`" ++ name ++ "`"

def alternatives : List String → String
  | [] => "there are no fields"
  | [a] => "expected " ++ ticked a
  | [a, b] => "expected " ++ ticked a ++ " or " ++ ticked b
  | names => "expected one of " ++ String.intercalate ", " (names.map ticked)

def Cause.message : Cause → String
  | .endOfList => "EOF while parsing a list"
  | .endOfObject => "EOF while parsing an object"
  | .endOfString => "EOF while parsing a string"
  | .endOfValue => "EOF while parsing a value"
  | .expectedColon => "expected `:`"
  | .expectedListSeparator => "expected `,` or `]`"
  | .expectedObjectSeparator => "expected `,` or `\x7d`"
  | .expectedWord => "expected ident"
  | .expectedValue => "expected value"
  | .invalidEscape => "invalid escape"
  | .invalidNumber => "invalid number"
  | .numberOutOfRange => "number out of range"
  | .invalidCodePoint => "invalid unicode code point"
  | .controlCharacter => "control character (\\u0000-\\u001F) found while parsing a string"
  | .keyNotText => "key must be a string"
  | .loneSurrogate => "lone leading surrogate in hex escape"
  | .trailingComma => "trailing comma"
  | .trailingCharacters => "trailing characters"
  | .unfinishedSurrogate => "unexpected end of hex escape"
  | .tooDeep => "recursion limit exceeded"
  | .invalidType found expected => "invalid type: " ++ found.message ++ ", expected " ++ expected
  | .invalidValue found expected => "invalid value: " ++ found.message ++ ", expected " ++ expected
  | .invalidLength n expected =>
    "invalid length " ++ String.ofList (Decimal.ofNat n) ++ ", expected " ++ expected
  | .unknownField name known => "unknown field " ++ ticked name ++ ", " ++ alternatives known
  | .unknownVariant name known => "unknown variant " ++ ticked name ++ ", " ++ alternatives known
  | .missingField name => "missing field " ++ ticked name
  | .duplicateField name => "duplicate field " ++ ticked name

/-- A refusal while reading: the text not yet read then, from which the place follows. A cause
that concerns a whole object or list is placed only once its end has been looked for; until
then it is not `placed`. -/
structure Failure where
  cause : Cause
  rest : Bytes
  placed : Bool

def Failure.settle (f : Failure) (rest : Bytes) : Failure :=
  if f.placed then f else ⟨f.cause, rest, true⟩

structure Place where
  line : Nat
  column : Nat
deriving DecidableEq

def Place.advance (p : Place) (b : UInt8) : Place :=
  if b = 10 then ⟨p.line + 1, 0⟩ else ⟨p.line, p.column + 1⟩

def Place.after (bytes : Bytes) : Place := bytes.foldl Place.advance ⟨1, 0⟩

structure Error where
  cause : Cause
  place : Option Place

def Error.message (e : Error) : String :=
  match e.place with
  | none => e.cause.message
  | some p =>
    e.cause.message ++ " at line " ++ String.ofList (Decimal.ofNat p.line)
      ++ " column " ++ String.ofList (Decimal.ofNat p.column)

def Failure.within (text : Bytes) (f : Failure) : Error :=
  ⟨f.cause, some (Place.after (text.take (text.length - f.rest.length)))⟩

end PathPolicy.Json
