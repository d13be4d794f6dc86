import PathPolicy.Bytes

/-!
Characters of a YAML text, and places in it. Line ends are unified when a text is prepared:
afterwards a line feed, a line separator or a paragraph separator ends a line.
-/

namespace PathPolicy.Yaml

/-! ### Characters -/

def isBlank (c : Char) : Bool := c = ' ' || c = '\t'

def isBreak (c : Char) : Bool := c = '\n' || c = '\u2028' || c = '\u2029'

def isWord (c : Char) : Bool := c.isAlphanum || c = '-' || c = '_'

def atBreak : List Char → Bool
  | [] => true
  | c :: _ => isBreak c

def atBlank : List Char → Bool
  | [] => true
  | c :: _ => isBlank c || isBreak c

def marker : List Char → Bool
  | a :: b :: c :: rest => a = b && b = c && (a = '-' || a = '.') && atBlank rest
  | _ => false

def hexNumber? (digits : List Char) : Option Nat :=
  digits.foldlM (fun n c => (Bytes.hexValue? c).map fun d => 16 * n + d) 0

/-! ### Preparing a text -/

def allowed (c : Char) : Bool :=
  let n := c.toNat
  n = 0x09 || n = 0x0A || n = 0x0D || (0x20 ≤ n && n ≤ 0x7E) || n = 0x85
    || (0xA0 ≤ n && n ≤ 0xFFFD) || 0x10000 ≤ n

/-- Ends lines with a line feed where a carriage return, both, or a next-line character end
them. -/
def unifyBreaks : List Char → List Char
  | '\r' :: '\n' :: rest => '\n' :: unifyBreaks rest
  | c :: rest => (if c = '\r' || c = '\u0085' then '\n' else c) :: unifyBreaks rest
  | [] => []

def prepare? (text : String) : Option (List Char) :=
  let cs := text.toList
  let cs := if cs.head? = some '\ufeff' then cs.tail else cs
  if cs.all allowed then some (unifyBreaks cs) else none

/-! ### Places -/

structure Cursor where
  rest : List Char
  line : Nat
  column : Nat

namespace Cursor

def start (text : List Char) : Cursor := ⟨text, 0, 0⟩

def next (c : Cursor) : Cursor :=
  match c.rest with
  | [] => c
  | x :: rest => if isBreak x then ⟨rest, c.line + 1, 0⟩ else ⟨rest, c.line, c.column + 1⟩

def advance : Nat → Cursor → Cursor
  | 0, c => c
  | n + 1, c => advance n c.next

def moveTo (c : Cursor) (rest : List Char) : Cursor := c.advance (c.rest.length - rest.length)

theorem rest_next (c : Cursor) : c.next.rest = c.rest.tail := by
  unfold next
  split
  · rename_i h
    simp [h]
  · rename_i h
    split <;> simp [h]

theorem rest_advance (n : Nat) (c : Cursor) : (c.advance n).rest = c.rest.drop n := by
  induction n generalizing c with
  | zero => rfl
  | succ n ih => rw [advance, ih, rest_next, List.drop_tail]

end Cursor

/-- Passes over blanks, comments and line ends, and over a mark of the byte order at a line's
beginning. Tabs are passed over where `tabs` allows them; after a line's end that is between
brackets only. -/
def gapFrom (bracketed : Bool) : (tabs comment : Bool) → (line column : Nat) → List Char → Cursor
  | _, _, line, column, [] => ⟨[], line, column⟩
  | tabs, comment, line, column, x :: rest =>
    if isBreak x then gapFrom bracketed bracketed false (line + 1) 0 rest
    else if comment || x = '#' then gapFrom bracketed tabs true line (column + 1) rest
    else if x = ' ' || (x = '\t' && tabs) || (x = '\ufeff' && column = 0) then
      gapFrom bracketed tabs false line (column + 1) rest
    else ⟨x :: rest, line, column⟩

end PathPolicy.Yaml
