import PathPolicy.Yaml.Scalar
import PathPolicy.Yaml.Tag

/-!
The signs and words of a YAML text. Where blocks begin and end shows in their indentation only;
tokens say it, and so does the one in front of each key.
-/

namespace PathPolicy.Yaml

inductive Token
  | directive (d : Directive)
  /-- Three hyphens, in front of a document. -/
  | opening
  /-- Three dots, after a document. -/
  | closing
  | openItems
  | openEntries
  /-- The end of a block of items or entries. -/
  | closeBlock
  | openList
  | closeList
  | openMap
  | closeMap
  | comma
  /-- A hyphen, in front of an item of a block. -/
  | item
  | key
  | value
  | name (s : String)
  /-- The name of a node that is repeated. -/
  | reference (s : String)
  | tag (t : WrittenTag)
  | scalar (text : String) (style : Style)

/-- A place where a key begins if a colon follows what stands there. Where a key has to begin, it
is `required`. -/
structure Candidate where
  /-- How many tokens precede it. -/
  position : Nat
  line : Nat
  column : Nat
  required : Bool

structure Layout where
  tokens : Array Token
  /-- The columns of the blocks that are open, the innermost one first. -/
  blocks : List Nat
  candidate : Option Candidate
  /-- The candidates around the brackets that are open, the innermost one first. -/
  outer : List (Option Candidate)
  /-- Whether a key or an item can begin here. -/
  keyAllowed : Bool

namespace Layout

def start : Layout := ⟨#[], [], none, [], true⟩

def bracketed (s : Layout) : Bool := !s.outer.isEmpty

def push (s : Layout) (t : Token) : Layout := { s with tokens := s.tokens.push t }

/-- The column from which on a line belongs to the innermost block. -/
def margin (s : Layout) : Nat :=
  match s.blocks with
  | [] => 0
  | column :: _ => column + 1

/-! ### Blocks -/

def closeBlocks (s : Layout) (n : Nat) : Layout :=
  if s.bracketed then s
  else
    { s with
      tokens := s.tokens ++ (List.replicate n Token.closeBlock).toArray
      blocks := s.blocks.drop n }

def closeBeyond (s : Layout) (column : Nat) : Layout :=
  s.closeBlocks (s.blocks.takeWhile (column < ·)).length

def closeAll (s : Layout) : Layout := s.closeBlocks s.blocks.length

def openBlock (s : Layout) (t : Token) (column position : Nat) : Layout :=
  if s.bracketed || column < s.margin then s
  else
    { s with
      tokens := s.tokens.insertIdxIfInBounds position t
      blocks := column :: s.blocks }

/-! ### Keys -/

/-- A key is within one line and not longer than 1024 characters. -/
def Candidate.expired (k : Candidate) (c : Cursor) : Bool :=
  k.line < c.line || k.column + 1024 < c.column

def giveUp (k? : Option Candidate) : Option (Option Candidate) :=
  if k?.any Candidate.required then none else some none

def expire (s : Layout) (c : Cursor) : Option Layout := do
  let check (k? : Option Candidate) : Option (Option Candidate) :=
    if k?.any (Candidate.expired · c) then giveUp k? else some k?
  return { s with candidate := ← check s.candidate, outer := ← s.outer.mapM check }

def dropCandidate (s : Layout) : Option Layout :=
  (giveUp s.candidate).map fun candidate => { s with candidate }

/-- Makes the cursor's place a candidate, if a key can begin there. In a block of entries one has
to begin at the block's column. -/
def propose (s : Layout) (c : Cursor) : Option Layout :=
  if s.keyAllowed then do
    let s ← s.dropCandidate
    let required := !s.bracketed && s.blocks.head? = some c.column
    return { s with candidate := some ⟨s.tokens.size, c.line, c.column, required⟩ }
  else some s

/-! ### Signs -/

def openBracket (s : Layout) (t : Token) (c : Cursor) : Option Layout := do
  let s ← s.propose c
  return { s.push t with candidate := none, outer := s.candidate :: s.outer, keyAllowed := true }

def closeBracket (s : Layout) (t : Token) : Option Layout := do
  let s ← s.dropCandidate
  let s := match s.outer with
    | [] => s
    | k? :: outer => { s with candidate := k?, outer }
  return { s.push t with keyAllowed := false }

def comma (s : Layout) : Option Layout := do
  let s ← s.dropCandidate
  return { s.push .comma with keyAllowed := true }

def openHere (s : Layout) (t : Token) (c : Cursor) : Option Layout :=
  if s.bracketed then some s
  else if s.keyAllowed then some (s.openBlock t c.column s.tokens.size)
  else none

def item (s : Layout) (c : Cursor) : Option Layout := do
  let s ← (← s.openHere .openItems c).dropCandidate
  return { s.push .item with keyAllowed := true }

def key (s : Layout) (c : Cursor) : Option Layout := do
  let s ← (← s.openHere .openEntries c).dropCandidate
  return { s.push .key with keyAllowed := !s.bracketed }

def value (s : Layout) (c : Cursor) : Option Layout :=
  match s.candidate with
  | some k =>
    let s := { s with
      tokens := s.tokens.insertIdxIfInBounds k.position .key
      candidate := none
      keyAllowed := false }
    some ((s.openBlock .openEntries k.column k.position).push .value)
  | none => do
    let s ← s.openHere .openEntries c
    return { s.push .value with keyAllowed := !s.bracketed }

def line (s : Layout) (t : Token) : Option Layout := do
  let s ← s.closeAll.dropCandidate
  return { s.push t with keyAllowed := false }

def word (s : Layout) (t : Token) (c : Cursor) : Option Layout := do
  let s ← s.propose c
  return { s.push t with keyAllowed := false }

def lines (s : Layout) (t : Token) : Option Layout := do
  let s ← s.dropCandidate
  return { s.push t with keyAllowed := true }

def finish (s : Layout) : Option (List Token) :=
  s.closeAll.dropCandidate.map fun s => s.tokens.toList

end Layout

/-! ### Reading -/

def Layout.read (s : Layout) (c : Cursor) : Option (Layout × List Char) :=
  match c.rest with
  | [] => none
  | x :: rest =>
    if c.column = 0 && x = '%' then do
      let (d, rest) ← directive? rest
      return (← s.line (.directive d), ← restOfLine? rest)
    else if c.column = 0 && marker c.rest then
      (s.line (if x = '-' then .opening else .closing)).map (·, c.rest.drop 3)
    else if x = '[' then (s.openBracket .openList c).map (·, rest)
    else if x = '\x7b' then (s.openBracket .openMap c).map (·, rest)
    else if x = ']' then (s.closeBracket .closeList).map (·, rest)
    else if x = '\x7d' then (s.closeBracket .closeMap).map (·, rest)
    else if x = ',' then s.comma.map (·, rest)
    else if x = '-' && atBlank rest then (s.item c).map (·, rest)
    else if x = '?' && (s.bracketed || atBlank rest) then (s.key c).map (·, rest)
    else if x = ':' && (s.bracketed || atBlank rest) then (s.value c).map (·, rest)
    else if x = '*' then do
      let (name, rest) ← name? rest
      return (← s.word (.reference name) c, rest)
    else if x = '&' then do
      let (name, rest) ← name? rest
      return (← s.word (.name name) c, rest)
    else if x = '!' then do
      let (tag, rest) ← tag? s.bracketed rest
      return (← s.word (.tag tag) c, rest)
    else if (x = '|' || x = '>') && !s.bracketed then do
      let literal := x = '|'
      let (text, rest) ← block literal s.margin rest
      return (← s.lines (.scalar text (if literal then .literal else .folded)), rest)
    else if x = '\'' then do
      let (text, rest) ← singleQuoted [] .nothing false rest
      return (← s.word (.scalar text .quoted) c, rest)
    else if x = '"' then do
      let (text, rest) ← doubleQuoted [] .nothing false rest
      return (← s.word (.scalar text .quoted) c, rest)
    else if startsPlain s.bracketed c.rest then do
      let (text, endedLine, rest) ← plain s.bracketed s.margin [] .nothing c.column c.rest
      let s ← s.word (.scalar text .plain) c
      return ({ s with keyAllowed := endedLine }, rest)
    else none

/-- Reads all tokens. The first argument bounds their number: each one takes a character at
least. -/
def Layout.readAll : Nat → Layout → Cursor → Option (List Token)
  | 0, _, _ => none
  | n + 1, s, c => do
    let gap := gapFrom s.bracketed (s.bracketed || !s.keyAllowed) false c.line c.column c.rest
    let s := { s with keyAllowed := s.keyAllowed || (!s.bracketed && c.line < gap.line) }
    let s := (← s.expire gap).closeBeyond gap.column
    if gap.rest.isEmpty then s.finish
    else
      let (s, rest) ← s.read gap
      Layout.readAll n s (gap.moveTo rest)

/-- The tokens of a text. None if a character or a sign stands where it must not. -/
def Token.ofText? (text : String) : Option (List Token) := do
  let cs ← prepare? text
  Layout.start.readAll (cs.length + 1) (.start cs)

end PathPolicy.Yaml
