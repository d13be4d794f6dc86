import PathPolicy.Decimal

/-!
Floating-point numbers in fourteen significant digits, rounded to the nearest, ties to even.
Trailing zeros are left out; very small and very large numbers have an exponent.
-/

namespace PathPolicy.Decimal
open Float.Model

def significantDigits : Nat := 14

def nearest (num den : Nat) : Nat :=
  let q := num / den
  let r := 2 * (num % den)
  if den < r ∨ (r = den ∧ q % 2 = 1) then q + 1 else q

def shifted (num den : Nat) (e : Int) : Nat × Nat :=
  (num * Nat.pow 10 e.toNat, den * Nat.pow 10 (-e).toNat)

def leadingExponent (num den : Nat) : Int :=
  let e : Int := (ofNat num).length - (ofNat den).length
  let (n, d) := shifted num den (-e)
  if d ≤ n then e else e - 1

def roundedDigits (num den : Nat) : List Char × Int :=
  let e := leadingExponent num den
  let (n, d) := shifted num den (significantDigits - 1 - e)
  let digits := nearest n d
  let e := if digits = Nat.pow 10 significantDigits then e + 1 else e
  (((ofNat digits).reverse.dropWhile (· = '0')).reverse, e)

def exponentText (e : Int) : List Char :=
  let ds := ofNat e.natAbs
  (if e < 0 then '-' else '+') :: (if ds.length < 2 then '0' :: ds else ds)

def withPoint : List Char → List Char
  | [] => []
  | [d] => [d]
  | d :: ds => d :: '.' :: ds

def general (digits : List Char) (e : Int) : List Char :=
  if e < -4 ∨ significantDigits ≤ e then withPoint digits ++ 'e' :: exponentText e
  else if e < 0 then '0' :: '.' :: List.replicate (-e - 1).toNat '0' ++ digits
  else
    let whole := e.toNat + 1
    if digits.length ≤ whole then digits ++ List.replicate (whole - digits.length) '0' ++ ['.', '0']
    else digits.take whole ++ '.' :: digits.drop whole

/-- The text of a number; a whole one ends in a point and a zero. -/
def generalOfFloat (x : Float) : List Char :=
  match x.toModel.unpack with
  | .notANumber => ['n', 'a', 'n']
  | .infinity s => match s with | .negative => ['-', 'i', 'n', 'f'] | .positive => ['i', 'n', 'f']
  | .zero s => match s with | .negative => ['-', '0', '.', '0'] | .positive => ['0', '.', '0']
  | .finite s m e _ =>
    let (digits, exponent) := roundedDigits (m * Nat.pow 2 e.toNat) (Nat.pow 2 (-e).toNat)
    let text := general digits exponent
    match s with | .negative => '-' :: text | .positive => text

end PathPolicy.Decimal
