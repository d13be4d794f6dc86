import PathPolicy.Json.Error

/-!
The words, numbers and strings of a JSON text, read byte by byte. Reading returns what
remains; skipping a value checks its form only and does not ask whether its numbers and
code points exist.
-/

namespace PathPolicy.Json

def fail {α : Type} (cause : Cause) (rest : Bytes) : Except Failure α := .error ⟨cause, rest, true⟩

def failNext {α : Type} (cause : Cause) (rest : Bytes) : Except Failure α :=
  .error ⟨cause, rest.tail, true⟩

def failWhole {α : Type} (cause : Cause) (rest : Bytes) : Except Failure α :=
  .error ⟨cause, rest, false⟩

def isSpace (b : UInt8) : Bool := b = 32 || b = 10 || b = 9 || b = 13

def skipSpace (text : Bytes) : Bytes := text.dropWhile isSpace

def isDigit (b : UInt8) : Bool := 48 ≤ b && b ≤ 57

def word : List UInt8 → Bytes → Except Failure Bytes
  | [], rest => .ok rest
  | _ :: _, [] => fail .endOfValue []
  | w :: ws, b :: rest => if b = w then word ws rest else fail .expectedWord rest

def ull : Bytes := [117, 108, 108]
def rue : Bytes := [114, 117, 101]
def alse : Bytes := [97, 108, 115, 101]

/-! ### Numbers -/

structure Numeral where
  whole : List Nat
  fraction : List Nat
  /-- Whether the exponent is negative, and its digits. -/
  exponent : Option (Bool × List Nat)

def takeDigits : Bytes → List Nat × Bytes
  | [] => ([], [])
  | b :: rest =>
    if isDigit b then
      let (ds, rest) := takeDigits rest
      ((b.toNat - 48) :: ds, rest)
    else ([], b :: rest)

def takePowerSign (text : Bytes) : Bool × Bytes :=
  match text with
  | 43 :: rest => (false, rest)
  | 45 :: rest => (true, rest)
  | rest => (false, rest)

/-- The first digit of the exponent is required. `atEnd` is the cause where the text ends too
early, here and below. -/
def scanExponent (atEnd : Cause) (text : Bytes) : Except Failure ((Bool × List Nat) × Bytes) :=
  let (negative, text) := takePowerSign text
  match text with
  | [] => fail atEnd []
  | b :: rest =>
    if isDigit b then
      let (ds, rest) := takeDigits (b :: rest)
      .ok ((negative, ds), rest)
    else fail .invalidNumber rest

def scanFraction (atEnd : Cause) (text : Bytes) : Except Failure (List Nat × Bytes) :=
  match takeDigits text with
  | ([], []) => failNext atEnd []
  | ([], b :: rest) => failNext .invalidNumber (b :: rest)
  | (ds, rest) => .ok (ds, rest)

def scanWhole (atEnd : Cause) (text : Bytes) : Except Failure (List Nat × Bytes) :=
  match text with
  | [] => fail atEnd []
  | 48 :: b :: rest =>
    if isDigit b then failNext .invalidNumber (b :: rest) else .ok ([0], b :: rest)
  | b :: rest => if isDigit b then .ok (takeDigits (b :: rest)) else fail .invalidNumber rest

def scanPoint (atEnd : Cause) (text : Bytes) : Except Failure (List Nat × Bytes) :=
  match text with
  | 46 :: rest => scanFraction atEnd rest
  | rest => .ok ([], rest)

def scanPower (atEnd : Cause) (text : Bytes) :
    Except Failure (Option (Bool × List Nat) × Bytes) :=
  match text with
  | [] => .ok (none, [])
  | b :: rest =>
    if b = 101 || b = 69 then (scanExponent atEnd rest).map fun (e, rest) => (some e, rest)
    else .ok (none, b :: rest)

def scanNumeral (atEnd : Cause) (text : Bytes) : Except Failure (Numeral × Bytes) := do
  let (whole, text) ← scanWhole atEnd text
  let (fraction, text) ← scanPoint atEnd text
  let (exponent, text) ← scanPower atEnd text
  return (⟨whole, fraction, exponent⟩, text)

def takeSign (text : Bytes) : Bool × Bytes :=
  match text with
  | 45 :: rest => (true, rest)
  | rest => (false, rest)

/-- Appends digits to a number as long as 64 bits hold it; the digits left over are returned. -/
def absorb (n : Nat) : List Nat → Nat × List Nat
  | [] => (n, [])
  | d :: ds => if 10 * n + d < UInt64.size then absorb (10 * n + d) ds else (n, d :: ds)

def powerOfTen (n : Nat) : Float := Float.ofScientific 1 false n

/-- Divides by ten to the `n`, by at most `10 ^ 308` at a time. After two such divisions
nothing is left of a 64-bit number. -/
def divideByPower : Nat → Float → Nat → Float
  | 0, x, _ => x
  | k + 1, x, n =>
    if n ≤ 308 then x / powerOfTen n
    else if x == 0 then x
    else divideByPower k (x / powerOfTen 308) (n - 308)

/-- `significand * 10 ^ exponent` in one rounded multiplication or division, which may miss the
nearest number by a unit in the last place. Numbers beyond the range are refused. -/
def scale? (significand : Nat) (exponent : Int) : Option Float :=
  let x := (UInt64.ofNat significand).toFloat
  if exponent < 0 then some (divideByPower 4 x exponent.natAbs)
  else if exponent ≤ 308 then
    let y := x * powerOfTen exponent.toNat
    if y.isInf then none else some y
  else if significand = 0 then some x
  else none

def exponentValue? : Nat → List Nat → Option Nat
  | n, [] => some n
  | n, d :: ds => if 10 * n + d ≤ Int32.maxValue.toInt then exponentValue? (10 * n + d) ds else none

def negated (negative : Bool) (x : Float) : Float := if negative then -x else x

/-- A whole number that 64 bits hold is exact, except minus zero. Otherwise the digits after
the first twenty or so only move the point. -/
def Numeral.value? (negative : Bool) (n : Numeral) : Option Number :=
  let (significand, dropped) := absorb 0 n.whole
  match n.fraction, n.exponent, dropped with
  | [], none, [] =>
    if !negative then some (.natural (UInt64.ofNat significand))
    else if significand = 0 ∨ -(significand : Int) < Int64.minValue.toInt then
      some (.real (-(UInt64.ofNat significand).toFloat))
    else some (.negative (Int64.ofInt (-significand)))
  | fraction, exponent, dropped =>
    let (significand, ignored) := absorb significand fraction
    let place : Int := dropped.length - (fraction.length - ignored.length : Nat)
    match exponent with
    | none => (scale? significand place).map fun x => .real (negated negative x)
    | some (below, ds) =>
      match exponentValue? 0 ds with
      | some e =>
        (scale? significand (if below then place - e else place + e)).map
          fun x => .real (negated negative x)
      | none =>
        if below || significand = 0 then some (.real (negated negative 0)) else none

def readNumber (text : Bytes) : Except Failure (Number × Bytes) := do
  let (negative, text) := takeSign text
  let (n, rest) ← scanNumeral .endOfValue text
  match n.value? negative with
  | some x => return (x, rest)
  | none => fail .numberOutOfRange rest

def skipNumber (text : Bytes) : Except Failure Bytes := do
  let (_, rest) ← scanNumeral .invalidNumber (takeSign text).2
  return rest

/-! ### Strings -/

def hexDigit? (b : UInt8) : Option Nat :=
  if isDigit b then some (b.toNat - 48)
  else if 97 ≤ b && b ≤ 102 then some (b.toNat - 87)
  else if 65 ≤ b && b ≤ 70 then some (b.toNat - 55)
  else none

def readUnit : Bytes → Except Failure (Nat × Bytes)
  | a :: b :: c :: d :: rest =>
    match hexDigit? a, hexDigit? b, hexDigit? c, hexDigit? d with
    | some a, some b, some c, some d => .ok (((a * 16 + b) * 16 + c) * 16 + d, rest)
    | _, _, _, _ => fail .invalidEscape rest
  | _ => fail .endOfString []

def shortEscape? (b : UInt8) : Option UInt8 :=
  if b = 34 || b = 92 || b = 47 then some b
  else if b = 98 then some 8
  else if b = 102 then some 12
  else if b = 110 then some 10
  else if b = 114 then some 13
  else if b = 116 then some 9
  else none

def encodeCodePoint (n : Nat) : Bytes := String.utf8EncodeChar (Char.ofNat n)

def readCodePoint (text : Bytes) : Except Failure (Nat × Bytes) := do
  let (high, text) ← readUnit text
  if 0xDC00 ≤ high ∧ high ≤ 0xDFFF then fail .loneSurrogate text
  else if high < 0xD800 ∨ 0xDBFF < high then return (high, text)
  else
    let text ← expect 92 text
    let text ← expect 117 text
    let (low, text) ← readUnit text
    if low < 0xDC00 ∨ 0xDFFF < low then fail .loneSurrogate text
    else return ((high - 0xD800) * 1024 + (low - 0xDC00) + 0x10000, text)
where
  expect (b : UInt8) : Bytes → Except Failure Bytes
    | [] => fail .endOfString []
    | c :: rest => if c = b then .ok rest else fail .unfinishedSurrogate rest

def readEscape : Bytes → Except Failure (Bytes × Bytes)
  | [] => fail .endOfString []
  | b :: rest =>
    match shortEscape? b with
    | some c => .ok ([c], rest)
    | none =>
      if b = 117 then do
        let (n, rest) ← readCodePoint rest
        return (encodeCodePoint n, rest)
      else fail .invalidEscape rest

/-- The bytes up to the closing quote, escapes resolved; `done` holds the bytes so far, last
one first. The first argument bounds the number of steps. -/
def readQuoted : Nat → Bytes → Bytes → Except Failure (Bytes × Bytes)
  | 0, _, rest => fail .endOfString rest
  | _ + 1, _, [] => fail .endOfString []
  | n + 1, done, b :: rest =>
    if b = 34 then .ok (done.reverse, rest)
    else if b = 92 then
      match readEscape rest with
      | .ok (bytes, rest) => readQuoted n (bytes.reverse ++ done) rest
      | .error f => .error f
    else if b < 32 then fail .controlCharacter rest
    else readQuoted n (b :: done) rest

def readText (steps : Nat) (text : Bytes) : Except Failure (String × Bytes) := do
  let (bytes, rest) ← readQuoted steps [] text
  match Bytes.text? bytes with
  | some s => return (s, rest)
  | none => fail .invalidCodePoint rest

/-- Passes over an escape without asking for the other half of a surrogate pair. -/
def skipEscape : Bytes → Except Failure Bytes
  | [] => fail .endOfString []
  | b :: rest =>
    match shortEscape? b with
    | some _ => .ok rest
    | none => if b = 117 then (readUnit rest).map Prod.snd else fail .invalidEscape rest

def skipQuoted : Nat → Bytes → Except Failure Bytes
  | 0, rest => fail .endOfString rest
  | _ + 1, [] => fail .endOfString []
  | n + 1, b :: rest =>
    if b = 34 then .ok rest
    else if b = 92 then
      match skipEscape rest with
      | .ok rest => skipQuoted n rest
      | .error f => .error f
    else if b < 32 then fail .controlCharacter (b :: rest)
    else skipQuoted n rest

/-! ### Values of any shape, passed over -/

inductive Bracket
  | list
  | object

def Bracket.endCause : Bracket → Cause
  | .list => .endOfList
  | .object => .endOfObject

def Bracket.separatorCause : Bracket → Cause
  | .list => .expectedListSeparator
  | .object => .expectedObjectSeparator

def Bracket.closing : Bracket → UInt8
  | .list => 93
  | .object => 125

def skipName (steps : Nat) (text : Bytes) : Except Failure Bytes :=
  match skipSpace text with
  | [] => failNext .endOfObject []
  | b :: rest =>
    if b = 34 then
      match skipQuoted steps rest with
      | .error f => .error f
      | .ok rest =>
        match skipSpace rest with
        | [] => failNext .endOfObject []
        | c :: rest => if c = 58 then .ok rest else failNext .expectedColon (c :: rest)
    else failNext .keyNotText (b :: rest)

def Bracket.skipName (bracket : Bracket) (steps : Nat) (text : Bytes) : Except Failure Bytes :=
  match bracket with
  | .list => .ok text
  | .object => Json.skipName steps text

mutual

/-- Passes over one value and whatever must follow it to close the brackets opened so far,
innermost first. Nesting is not bounded. -/
def skipIn (steps : Nat) : Nat → List Bracket → Bytes → Except Failure Bytes
  | 0, _, rest => fail .endOfValue rest
  | n + 1, open_, text =>
    match skipSpace text with
    | [] => failNext .endOfValue []
    | b :: rest =>
      if b = 110 then (word ull rest).bind (skipAfter steps n open_)
      else if b = 116 then (word rue rest).bind (skipAfter steps n open_)
      else if b = 102 then (word alse rest).bind (skipAfter steps n open_)
      else if b = 45 || isDigit b then (skipNumber (b :: rest)).bind (skipAfter steps n open_)
      else if b = 34 then (skipQuoted steps rest).bind (skipAfter steps n open_)
      else if b = 91 then skipFirst steps n .list open_ rest
      else if b = 123 then skipFirst steps n .object open_ rest
      else failNext .expectedValue (b :: rest)

def skipFirst (steps : Nat) : Nat → Bracket → List Bracket → Bytes → Except Failure Bytes
  | 0, _, _, rest => fail .endOfValue rest
  | n + 1, bracket, open_, text =>
    match skipSpace text with
    | [] => failNext bracket.endCause []
    | b :: rest =>
      if b = bracket.closing then skipAfter steps n open_ rest
      else (bracket.skipName steps (b :: rest)).bind (skipIn steps n (bracket :: open_))

def skipAfter (steps : Nat) : Nat → List Bracket → Bytes → Except Failure Bytes
  | _, [], rest => .ok rest
  | 0, _ :: _, rest => fail .endOfValue rest
  | n + 1, bracket :: open_, text =>
    match skipSpace text with
    | [] => failNext bracket.endCause []
    | b :: rest =>
      if b = 44 then (bracket.skipName steps rest).bind (skipIn steps n (bracket :: open_))
      else if b = bracket.closing then skipAfter steps n open_ rest
      else failNext bracket.separatorCause (b :: rest)

end

def skipValue (steps : Nat) (text : Bytes) : Except Failure Bytes :=
  skipIn steps (2 * steps) [] text

end PathPolicy.Json
