import PathPolicy.Bytes
import PathPolicy.Float

/-!
Numbers as scripts write them: decimal or, after `0x`, hexadecimal, with blanks around them. A
number with a point or an exponent is a floating-point one, as is a decimal number that is too
long; long hexadecimal numbers wrap around.
-/

namespace PathPolicy.Vm

inductive Numeral
  | integer (n : Int64)
  | real (x : Float)

namespace Numeral

def isSpace (c : Char) : Bool := c = ' ' || ('\t' ≤ c && c ≤ '\r')

def trim (cs : List Char) : List Char :=
  ((cs.dropWhile isSpace).reverse.dropWhile isSpace).reverse

def ofDigits (base : Nat) (digits : List Char) : Nat × Nat :=
  (digits.foldl (fun n c => base * n + (Bytes.hexValue? c).getD 0) 0, digits.length)

def signed : List Char → Bool × List Char
  | '-' :: rest => (true, rest)
  | '+' :: rest => (false, rest)
  | cs => (false, cs)

/-- What an exponent after one of two letters is. No exponent is zero; other text is none. -/
def exponent? (small large : Char) : List Char → Option Int
  | [] => some 0
  | c :: rest =>
    let (negative, digits) := signed rest
    if (c = small || c = large) && !digits.isEmpty && digits.all Char.isDigit then
      let n : Int := (ofDigits 10 digits).1
      some (if negative then -n else n)
    else none

structure Unsigned where
  /-- Whether it is written with digits only. -/
  whole : Bool
  /-- All digits before the exponent, as a number. -/
  significand : Nat
  /-- How many of them are behind the point. -/
  places : Nat
  exponent : Int

def unsigned? (base : Nat) (isDigit : Char → Bool) (small large : Char) (cs : List Char) :
    Option Unsigned := do
  let front := cs.takeWhile isDigit
  let rest := cs.dropWhile isDigit
  let (behind, rest) := match rest with
    | '.' :: rest => (rest.takeWhile isDigit, rest.dropWhile isDigit)
    | rest => ([], rest)
  if front.isEmpty && behind.isEmpty then none
  let exponent ← exponent? small large rest
  return ⟨front.length = cs.length, (ofDigits base (front ++ behind)).1, behind.length, exponent⟩

def finish (negative : Bool) (x : Float) : Numeral := .real (if negative then -x else x)

def decimal? (negative : Bool) (cs : List Char) : Option Numeral :=
  (unsigned? 10 Char.isDigit 'e' 'E' cs).map fun u =>
    let n : Int := if negative then -u.significand else u.significand
    if u.whole && Int64.minValue.toInt ≤ n && n ≤ Int64.maxValue.toInt then .integer (Int64.ofInt n)
    else
      let e : Int := u.exponent - u.places
      finish negative (Float.ofScientific u.significand (e < 0) e.natAbs)

def hexadecimal? (negative : Bool) (cs : List Char) : Option Numeral :=
  (unsigned? 16 (fun c => (Bytes.hexValue? c).isSome) 'p' 'P' cs).map fun u =>
    let n : Int := if negative then -u.significand else u.significand
    if u.whole then .integer (Int64.ofInt n)
    else finish negative (Double.ofBinary u.significand (u.exponent - 4 * u.places))

def ofText? (s : String) : Option Numeral :=
  let (negative, cs) := signed (trim s.toList)
  match cs with
  | '0' :: 'x' :: rest | '0' :: 'X' :: rest => hexadecimal? negative rest
  | cs => decimal? negative cs

end Numeral
end PathPolicy.Vm
