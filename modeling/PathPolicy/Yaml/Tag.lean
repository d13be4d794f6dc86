import PathPolicy.Yaml.Cursor

/-!
Names, tags and directives. A tag is a sequence of bytes: a shorthand's meaning, and what is
written after the shorthand. In it, bytes can be written as two hexadecimal digits after a
percent sign.
-/

namespace PathPolicy.Yaml

/-! ### Names -/

def afterName (text : List Char) : Bool :=
  atBlank text || text.head?.any fun c => (Char.ofNat 96 :: "?:,]\x7d%@".toList).contains c

def name? (text : List Char) : Option (String × List Char) :=
  let name := text.takeWhile isWord
  let rest := text.dropWhile isWord
  if name.isEmpty || !afterName rest then none else some (String.ofList name, rest)

/-! ### Tags -/

/-- The characters of tags. Between angle brackets and in directives there are more of them. -/
def isTagCharacter (verbatim : Bool) (c : Char) : Bool :=
  isWord c || ";/?:@&=+$.%!~*'()".toList.contains c || (verbatim && ",[]".toList.contains c)

def followers? (b : UInt8) : Option Nat :=
  if b < 0x80 then some 0
  else if 0xC0 ≤ b ∧ b < 0xE0 then some 1
  else if 0xE0 ≤ b ∧ b < 0xF0 then some 2
  else if 0xF0 ≤ b ∧ b < 0xF8 then some 3
  else none

/-- The part of a tag that is written out, which can be empty. `wanted` bytes are still missing
of a character, and are all written in the same way. -/
def tagBytes (verbatim : Bool) (wanted : Nat) : List Char → Option (Bytes × List Char)
  | '%' :: a :: b :: rest => do
    let octet ← (hexNumber? [a, b]).map UInt8.ofNat
    let wanted ← match wanted with
      | 0 => followers? octet
      | n + 1 => if 0x80 ≤ octet ∧ octet < 0xC0 then some n else none
    let (bytes, rest) ← tagBytes verbatim wanted rest
    return (octet :: bytes, rest)
  | x :: rest =>
    if wanted ≠ 0 || x = '%' then none
    else if isTagCharacter verbatim x then do
      let (bytes, rest) ← tagBytes verbatim 0 rest
      return (UInt8.ofNat x.toNat :: bytes, rest)
    else some ([], x :: rest)
  | [] => if wanted = 0 then some ([], []) else none

/-- Bytes count up to the first zero. -/
def untilZero (bytes : Bytes) : Bytes := bytes.takeWhile (· ≠ 0)

def tagPart? (verbatim : Bool) (text : List Char) : Option (Bytes × List Char) := do
  let (bytes, rest) ← tagBytes verbatim 0 text
  if bytes.isEmpty then none else return (untilZero bytes, rest)

/-- A tag as it is written: a shorthand, and the part after it. A tag with an empty shorthand is
written out. -/
structure WrittenTag where
  shorthand : String
  part : Bytes

def shorthand? (text : List Char) : Option (String × List Char) :=
  match text.dropWhile isWord with
  | '!' :: rest => some (String.ofList ('!' :: text.takeWhile isWord ++ ['!']), rest)
  | _ => none

def tagAfterMark? (text : List Char) : Option (WrittenTag × List Char) :=
  match text with
  | '<' :: rest => do
    let (part, rest) ← tagPart? true rest
    match rest with
    | '>' :: rest => return (⟨"", part⟩, rest)
    | _ => none
  | text =>
    match shorthand? text with
    | some (shorthand, rest) => do
      let (part, rest) ← tagPart? false rest
      return (⟨shorthand, part⟩, rest)
    | none => do
      let (bytes, rest) ← tagBytes false 0 text
      let part := untilZero bytes
      return (if part.isEmpty then ⟨"", Bytes.ofText "!"⟩ else ⟨"!", part⟩, rest)

/-- A tag after its exclamation mark. A blank follows it, or a comma between brackets. -/
def tag? (bracketed : Bool) (text : List Char) : Option (WrittenTag × List Char) := do
  let (tag, rest) ← tagAfterMark? text
  if atBlank rest || (bracketed && rest.head? = some ',') then return (tag, rest) else none

def defaultShorthands : List (String × Bytes) :=
  [("!", Bytes.ofText "!"), ("!!", Bytes.ofText "tag:yaml.org,2002:")]

def WrittenTag.resolve? (shorthands : List (String × Bytes)) (t : WrittenTag) : Option Bytes :=
  if t.shorthand.isEmpty then some t.part
  else (shorthands.lookup t.shorthand).map (· ++ t.part)

/-! ### Directives -/

inductive Directive
  /-- The version of the language. -/
  | version (major minor : Nat)
  /-- What a shorthand means. -/
  | shorthand (name : String) (meaning : Bytes)

def shortNumber? (text : List Char) : Option (Nat × List Char) :=
  let digits := text.takeWhile Char.isDigit
  if digits.isEmpty || 9 < digits.length then none
  else some (digits.foldl (fun n c => 10 * n + (c.toNat - 48)) 0, text.dropWhile Char.isDigit)

def explained? (text : List Char) : Option (String × List Char) :=
  match text with
  | '!' :: rest =>
    match shorthand? rest with
    | some found => some found
    | none => if rest.head?.any isWord then none else some ("!", rest)
  | _ => none

def directive? (text : List Char) : Option (Directive × List Char) := do
  let name := String.ofList (text.takeWhile isWord)
  let rest := text.dropWhile isWord
  if !atBlank rest then none
  let rest := rest.dropWhile isBlank
  if name = "YAML" then
    match ← shortNumber? rest with
    | (major, '.' :: rest) => do
      let (minor, rest) ← shortNumber? rest
      return (.version major minor, rest)
    | _ => none
  else if name = "TAG" then
    let (shorthand, rest) ← explained? rest
    if !rest.head?.any isBlank then none
    let (meaning, rest) ← tagPart? true (rest.dropWhile isBlank)
    if atBlank rest then return (.shorthand shorthand meaning, rest) else none
  else none

end PathPolicy.Yaml
