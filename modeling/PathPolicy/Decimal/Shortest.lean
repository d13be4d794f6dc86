import PathPolicy.Decimal

/-!
The shortest decimal that reads back as a given binary floating-point number, and its text.
Among the decimals with the fewest digits the nearest one is taken, of two equally near
the even one. All comparisons are exact, between whole numbers.
-/

namespace PathPolicy.Decimal
open Float.Model

structure Scaled where
  digits : Nat
  exponent : Int
deriving DecidableEq

/-- The positive numbers that round to `mantissa * 2 ^ exponent`: everything between the
midpoints to its two neighbours. All three bounds are whole multiples of `2 ^ (exponent - 2)`,
and the midpoints belong to the interval when `closed`. -/
structure Interval where
  low : Nat
  center : Nat
  high : Nat
  exponent : Int
  closed : Bool

/-- Below a power of two the neighbours lie half as far apart, unless it is the least one. -/
def Interval.around (format : Format) (mantissa : Nat) (exponent : Int) : Interval :=
  let halved := mantissa = Nat.pow 2 (format.mantissaBits - 1) ∧ format.minExponent < exponent
  { low := 4 * mantissa - (if halved then 1 else 2)
    center := 4 * mantissa
    high := 4 * mantissa + 2
    exponent := exponent - 2
    closed := mantissa % 2 = 0 }

/-- Both sides of a comparison of `n * 10 ^ k` with `m * 2 ^ e`: `n` is multiplied by the
first factor and `m` by the second. -/
def factors (k e : Int) : Nat × Nat :=
  (Nat.pow 10 k.toNat * Nat.pow 2 (-e).toNat, Nat.pow 2 e.toNat * Nat.pow 10 (-k).toNat)

def Interval.mem (i : Interval) (n : Nat) (k : Int) : Bool :=
  let (a, b) := factors k i.exponent
  if i.closed then i.low * b ≤ n * a && n * a ≤ i.high * b
  else i.low * b < n * a && n * a < i.high * b

/-- The neighbour of the center on the grid of the multiples of `10 ^ k` that lies in the
interval; of two, the nearer one, and the even one of two equally near. -/
def Interval.onGrid? (i : Interval) (k : Int) : Option Nat :=
  let (a, b) := factors k i.exponent
  let below := i.center * b / a
  let above := below + 1
  match i.mem below k, i.mem above k with
  | false, false => none
  | true, false => some below
  | false, true => some above
  | true, true =>
    let left := i.center * b - below * a
    let right := above * a - i.center * b
    if left < right then some below
    else if right < left then some above
    else some (if below % 2 = 0 then below else above)

def Interval.search (i : Interval) : Nat → Int → Scaled
  | 0, k => ⟨i.center, k⟩
  | n + 1, k =>
    match i.onGrid? k with
    | some digits => ⟨digits, k⟩
    | none => i.search n (k - 1)

/-- The search starts above the leading digit, whose place is the number of binary places
times the logarithm of two, and seventeen digits always suffice. -/
def shortest (format : Format) (mantissa : Nat) (exponent : Int) : Scaled :=
  let start := (totalExponent mantissa exponent) * 30103 / 100000 + 2
  (Interval.around format mantissa exponent).search 24 start

structure Layout where
  /-- The greatest number of digits before the point. -/
  wholeDigits : Int
  /-- The number of zeros after the point that is already too many. -/
  leadingZeros : Int

def pointed : List Char → List Char
  | [] => []
  | ds => '.' :: ds

def Scaled.render (layout : Layout) (x : Scaled) : List Char :=
  let ds := ofNat x.digits
  let point := x.exponent + ds.length
  if 0 ≤ x.exponent ∧ point ≤ layout.wholeDigits then
    ds ++ List.replicate x.exponent.toNat '0' ++ ['.', '0']
  else if 0 < point ∧ point ≤ layout.wholeDigits then
    ds.take point.toNat ++ '.' :: ds.drop point.toNat
  else if -layout.leadingZeros < point ∧ point ≤ 0 then
    '0' :: '.' :: List.replicate (-point).toNat '0' ++ ds
  else
    let sign := if 1 ≤ point then '+' else '-'
    ds.take 1 ++ pointed (ds.drop 1) ++ 'e' :: sign :: ofNat (point - 1).natAbs

def signed (sign : UnpackedFloat.Sign) (text : List Char) : List Char :=
  match sign with
  | .negative => '-' :: text
  | .positive => text

def render? (format : Format) (layout : Layout) : UnpackedFloat → Option (List Char)
  | .notANumber => none
  | .infinity _ => none
  | .zero s => some (signed s ['0', '.', '0'])
  | .finite s m e _ => some (signed s ((shortest format m e).render layout))

def wide : Layout := ⟨16, 5⟩

def narrow : Layout := ⟨13, 6⟩

def ofFloat? (x : Float) : Option (List Char) := render? .binary64 wide x.toModel.unpack

def ofFloat32? (x : Float32) : Option (List Char) := render? .binary32 narrow x.toModel.unpack

end PathPolicy.Decimal
