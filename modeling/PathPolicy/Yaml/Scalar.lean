import PathPolicy.Yaml.Cursor

/-!
Scalars: plain, quoted, and blocks of lines. Between two words of a plain or quoted scalar, a
line's end counts as a space; where empty lines follow, only their ends count.
-/

namespace PathPolicy.Yaml

inductive Style
  | plain
  | quoted
  /-- A block of lines that keeps their ends. -/
  | literal
  /-- A block of lines that joins them. -/
  | folded
deriving DecidableEq

/-! ### Between words -/

inductive Gap
  /-- Blanks within a line. -/
  | blanks (cs : List Char)
  /-- The ends of lines. Blanks around them do not count. -/
  | ends (cs : List Char)
  /-- The ends of empty lines after a line whose end was escaped. -/
  | escaped (cs : List Char)

namespace Gap

def nothing : Gap := .blanks []

def isNothing : Gap → Bool
  | blanks [] => true
  | _ => false

def spansLines : Gap → Bool
  | blanks _ => false
  | _ => true

def pushBlank (g : Gap) (c : Char) : Gap :=
  match g with
  | blanks cs => blanks (c :: cs)
  | g => g

def pushBreak (g : Gap) (c : Char) : Gap :=
  match g with
  | blanks _ => ends [c]
  | ends cs => ends (c :: cs)
  | escaped cs => escaped (c :: cs)

/-- A line feed is a space if no other line's end follows it, and gives way to those that
follow. -/
def fold : List Char → List Char
  | ['\n'] => [' ']
  | '\n' :: more => more
  | cs => cs

def text : Gap → List Char
  | blanks cs => cs
  | ends cs => (fold cs.reverse).reverse
  | escaped cs => cs

end Gap

/-! ### Quoted scalars -/

/-- The text after the opening quote, and what follows the closing one; a quote inside is written
twice. `words` is read already, last character first. At a line's beginning, where `fresh`
holds, no marker may stand. -/
def singleQuoted (words : List Char) (gap : Gap) (fresh : Bool) :
    List Char → Option (String × List Char)
  | [] => none
  | x :: rest =>
    if isBreak x then singleQuoted words (gap.pushBreak x) true rest
    else if isBlank x then singleQuoted words (gap.pushBlank x) false rest
    else if fresh && marker (x :: rest) then none
    else if x = '\'' then
      match rest with
      | '\'' :: rest => singleQuoted ('\'' :: (gap.text ++ words)) .nothing false rest
      | rest => some (String.ofList (gap.text ++ words).reverse, rest)
    else singleQuoted (x :: (gap.text ++ words)) .nothing false rest

def shortEscape? (c : Char) : Option Char :=
  if c = '0' then some '\x00'
  else if c = 'a' then some '\x07'
  else if c = 'b' then some '\x08'
  else if c = 't' || c = '\t' then some '\t'
  else if c = 'n' then some '\n'
  else if c = 'v' then some '\x0b'
  else if c = 'f' then some '\x0c'
  else if c = 'r' then some '\r'
  else if c = 'e' then some '\x1b'
  else if c = ' ' || c = '"' || c = '/' || c = '\\' then some c
  else if c = 'N' then some '\u0085'
  else if c = '_' then some '\u00a0'
  else if c = 'L' then some '\u2028'
  else if c = 'P' then some '\u2029'
  else none

def codePoint? (digits : List Char) : Option Char :=
  (hexNumber? digits).bind fun n => if n.isValidChar then some (Char.ofNat n) else none

def doubleQuoted (words : List Char) (gap : Gap) (fresh : Bool) :
    List Char → Option (String × List Char)
  | [] => none
  | x :: rest =>
    if isBreak x then doubleQuoted words (gap.pushBreak x) true rest
    else if isBlank x then doubleQuoted words (gap.pushBlank x) false rest
    else if fresh && marker (x :: rest) then none
    else
      let words := gap.text ++ words
      if x = '"' then some (String.ofList words.reverse, rest)
      else if x = '\\' then
        match rest with
        | [] => none
        | e :: rest =>
          if isBreak e then doubleQuoted words (.escaped []) true rest
          else
            match shortEscape? e with
            | some y => doubleQuoted (y :: words) .nothing false rest
            | none =>
              match e, rest with
              | 'x', a :: b :: rest =>
                match codePoint? [a, b] with
                | some y => doubleQuoted (y :: words) .nothing false rest
                | none => none
              | 'u', a :: b :: c :: d :: rest =>
                match codePoint? [a, b, c, d] with
                | some y => doubleQuoted (y :: words) .nothing false rest
                | none => none
              | 'U', a :: b :: c :: d :: a' :: b' :: c' :: d' :: rest =>
                match codePoint? [a, b, c, d, a', b', c', d'] with
                | some y => doubleQuoted (y :: words) .nothing false rest
                | none => none
              | _, _ => none
      else doubleQuoted (x :: words) .nothing false rest

/-! ### Plain scalars -/

def isPunctuation (c : Char) : Bool := c = ',' || c = '[' || c = ']' || c = '\x7b' || c = '\x7d'

def startsPlain (bracketed : Bool) : List Char → Bool
  | [] => false
  | c :: rest =>
    if c = '-' then !(rest.head?.any isBlank)
    else if c = '?' || c = ':' then !bracketed && !atBlank rest
    else !(isPunctuation c || isBlank c || isBreak c || c = '#' || c = '&' || c = '*' || c = '!'
      || c = '|' || c = '>' || c = '\'' || c = '"' || c = '%' || c = '@' || c = Char.ofNat 96)

def endsAtWord (bracketed : Bool) (margin : Nat) (gap : Gap) (column : Nat) (rest : List Char) :
    Bool :=
  !gap.isNothing && (rest.head? = some '#' || (!bracketed && column < margin)
    || (column = 0 && marker rest))

/-- A plain scalar, whether it ended with its line, and what follows it. It goes on in lines
that are indented by `margin` at least; tabs do not indent. -/
def plain (bracketed : Bool) (margin : Nat) (words : List Char) (gap : Gap) (column : Nat) :
    List Char → Option (String × Bool × List Char)
  | [] => some (String.ofList words.reverse, gap.spansLines, [])
  | x :: rest =>
    if isBreak x then plain bracketed margin words (gap.pushBreak x) 0 rest
    else if isBlank x then
      if gap.spansLines && x = '\t' && column < margin then none
      else plain bracketed margin words (gap.pushBlank x) (column + 1) rest
    else if endsAtWord bracketed margin gap column (x :: rest) then
      some (String.ofList words.reverse, gap.spansLines, x :: rest)
    else if bracketed && x = ':' && rest.head?.any (fun y => isPunctuation y || y = '?') then none
    else if (x = ':' && atBlank rest) || (bracketed && isPunctuation x) then
      some (String.ofList words.reverse, gap.spansLines, x :: rest)
    else plain bracketed margin (x :: (gap.text ++ words)) .nothing (column + 1) rest

/-! ### Blocks of lines -/

/-- A line, and the character that ends it. Only the last line of a text has none. -/
structure Line where
  text : List Char
  ending : Option Char

def Line.toList (l : Line) : List Char := l.text ++ l.ending.toList

def splitLines : List Char → List Line
  | [] => []
  | x :: rest =>
    if isBreak x then ⟨[], some x⟩ :: splitLines rest
    else
      match splitLines rest with
      | [] => [⟨[x], none⟩]
      | l :: lines => ⟨x :: l.text, l.ending⟩ :: lines

theorem toList_splitLines (text : List Char) : (splitLines text).flatMap Line.toList = text := by
  induction text with
  | nil => rfl
  | cons x rest ih =>
    unfold splitLines
    split
    · simp [Line.toList, ih]
    · split
      · rename_i h
        rw [h] at ih
        simp only [List.flatMap_nil] at ih
        simp [Line.toList, ← ih]
      · rename_i l lines h
        rw [h] at ih
        simp only [List.flatMap_cons] at ih ⊢
        simp [Line.toList, ← ih]

def Line.indentation (l : Line) : Nat := (l.text.takeWhile (· = ' ')).length

def Line.within (l : Line) (width : Nat) : List Char := l.text.drop (min l.indentation width)

def Line.tabbed (l : Line) (width : Nat) : Bool :=
  l.indentation < width && (l.within width).head? = some '\t'

/-- How the line ends after the last line of a block are treated: dropped, kept, or all but one
dropped. -/
inductive Chomping
  | strip
  | keep
  | clip

/-- How wide the lines in front of the first word are indented; an empty line can be the widest.
None if a tab indents one. -/
def widest : List Line → Option Nat
  | [] => some 0
  | l :: lines =>
    let n := l.indentation
    match l.text.drop n, l.ending with
    | [], some _ => (widest lines).map (max n)
    | '\t' :: _, _ => none
    | _, _ => some n

/-- What is known of a block while its lines are read: its text, last character first, the end of
its last line and of the empty lines after it, and whether that line began with a blank. -/
structure Block where
  words : List Char
  ending : Option Char
  empty : List Char
  indented : Bool

namespace Block

/-- Adds a line. Two lines are joined by a space if none of them begins with a blank; empty lines
between them are kept. -/
def push (b : Block) (literal : Bool) (line : List Char) (ending : Option Char) : Block :=
  let indented := line.head?.any isBlank
  let joint :=
    if !literal && b.ending = some '\n' && !b.indented && !indented then
      if b.empty.isEmpty then [' '] else []
    else b.ending.toList
  ⟨line.reverse ++ b.empty ++ joint ++ b.words, ending, [], indented⟩

def chomp (b : Block) : Chomping → List Char
  | .strip => b.words
  | .clip => b.ending.toList ++ b.words
  | .keep => b.empty ++ b.ending.toList ++ b.words

def read (literal : Bool) (width : Nat) (b : Block) : List Line → Option (Block × List Line)
  | [] => some (b, [])
  | l :: lines =>
    if l.tabbed width then none
    else
      match l.within width, l.ending with
      | [], some e => read literal width { b with empty := e :: b.empty } lines
      | [], none => some (b, l :: lines)
      | inside, ending =>
        if width ≤ l.indentation then read literal width (b.push literal inside ending) lines
        else some (b, l :: lines)

end Block

def chomping? (c : Char) : Option Chomping :=
  if c = '-' then some .strip else if c = '+' then some .keep else none

def blockDigit? (c : Char) : Option Nat := if c.isDigit then some (c.toNat - 48) else none

def blockHeader (text : List Char) : Option Nat × Chomping × List Char :=
  match text with
  | [] => (none, .clip, [])
  | a :: rest =>
    match chomping? a, blockDigit? a with
    | some k, _ =>
      match rest.head?.bind blockDigit? with
      | some n => (some n, k, rest.tail)
      | none => (none, k, rest)
    | none, some n =>
      match rest.head?.bind chomping? with
      | some k => (some n, k, rest.tail)
      | none => (some n, .clip, rest)
    | none, none => (none, .clip, text)

def restOfLine? (text : List Char) : Option (List Char) :=
  let text := text.dropWhile isBlank
  let text := if text.head? = some '#' then text.dropWhile fun c => !isBreak c else text
  if atBreak text then some text.tail else none

/-- The text of a block after its sign, and what follows it. Its lines are indented as its header
says, or as the widest of its first lines is, but not by less than `margin`. -/
def block (literal : Bool) (margin : Nat) (text : List Char) : Option (String × List Char) := do
  let (extra, chomping, text) := blockHeader text
  if extra = some 0 then none
  let lines := splitLines (← restOfLine? text)
  let width ← match extra with
    | some n => some (margin - 1 + n)
    | none => (widest lines).map fun n => max n (max margin 1)
  let (b, rest) ← Block.read literal width ⟨[], none, [], false⟩ lines
  return (String.ofList (b.chomp chomping).reverse, rest.flatMap Line.toList)

end PathPolicy.Yaml
