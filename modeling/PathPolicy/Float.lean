/-!
Exact views of floating-point numbers, and the conversions between the two precisions.
Everything is said about the number that the bits denote; rounding is to the nearest, ties to
even.
-/

namespace PathPolicy
open Float.Model

def reround (format : Format) : UnpackedFloat → UnpackedFloat
  | .finite s m e _ => UnpackedFloat.round format s m e
  | x => x

def Single.ofDouble (x : Float) : Float32 := .ofModel (.pack (reround .binary32 x.toModel.unpack))

def Double.ofSingle (x : Float32) : Float := .ofModel (.pack (reround .binary64 x.toModel.unpack))

def Double.ofInt (n : Int) : Float := .ofModel (.ofInt n)

/-- The double-precision number nearest to `m * 2 ^ e`. It is zero long before `e` is as low as the
bound, so that no lower exponent need be counted out. -/
def Double.ofBinary (m : Nat) (e : Int) : Float :=
  if m = 0 then 0
  else .ofModel (.pack (UnpackedFloat.round .binary64 .positive m (max e (-1200 - m.log2))))

def integer? : UnpackedFloat → Option Int
  | .notANumber => none
  | .infinity _ => none
  | .zero _ => some 0
  | .finite s m e _ =>
    let sign : Int := match s with | .negative => -1 | .positive => 1
    if 0 ≤ e then some (sign * (m * Nat.pow 2 e.toNat : Nat))
    else if m % Nat.pow 2 (-e).toNat = 0 then some (sign * (m / Nat.pow 2 (-e).toNat : Nat))
    else none

def Double.integer? (x : Float) : Option Int := PathPolicy.integer? x.toModel.unpack

/-- The whole number next to `x` on the way to zero. -/
def Double.trunc (x : Float) : Float :=
  match x.toModel.unpack with
  | .finite s m e _ =>
    if 0 ≤ e then x
    else .ofModel (.pack (UnpackedFloat.round .binary64 s (m / Nat.pow 2 (-e).toNat) 0))
  | _ => x

def Double.fract (x : Float) : Float := x - Double.trunc x

/-- Whether `n` is less than the number that `x` denotes; false where it denotes none. -/
def Double.intLt (n : Int) (x : Float) : Bool :=
  match x.toModel.unpack with
  | .notANumber => false
  | .infinity s => match s with | .negative => false | .positive => true
  | .zero _ => n < 0
  | .finite s m e _ =>
    let signed : Int := match s with | .negative => -m | .positive => m
    n * Nat.pow 2 (-e).toNat < signed * Nat.pow 2 e.toNat

def Double.ltInt (x : Float) (n : Int) : Bool :=
  match x.toModel.unpack with
  | .notANumber => false
  | .infinity s => match s with | .negative => true | .positive => false
  | .zero _ => 0 < n
  | .finite s m e _ =>
    let signed : Int := match s with | .negative => -m | .positive => m
    signed * Nat.pow 2 e.toNat < n * Nat.pow 2 (-e).toNat

/-- What remains of `x` after division by `y`, with the sign of `x`. It is exact. -/
def Double.remainder (x y : Float) : Float :=
  match x.toModel.unpack, y.toModel.unpack with
  | .notANumber, _ | _, .notANumber | .infinity _, _ | _, .zero _ => 0.0 / 0.0
  | .zero _, _ | _, .infinity _ => x
  | .finite s m e _, .finite _ n f _ =>
    let low := min e f
    let r := (m * Nat.pow 2 (e - low).toNat) % (n * Nat.pow 2 (f - low).toNat)
    let size := Double.ofBinary r low
    match s with
    | .negative => -size
    | .positive => size

end PathPolicy
