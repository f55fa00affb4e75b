/-
  Errand.Number.Shortest — the decimal text of a floating point number.

  The digits are the fewest that read back as the same number, and of those the
  nearest to it. A text is sought on the grids of one digit, two digits and so
  on: the first grid with a point that reads back has one among the two points
  beside the number.
-/

import Errand.Text.Basic
import Errand.Number.Double

namespace Errand.Double

/-! ## The interval that reads back -/

/-- The numbers that round to a given one, in quarters of a unit. -/
structure Interval where
  low : Nat
  value : Nat
  high : Nat
  /-- Both ends round to the number itself. -/
  closed : Bool

/-- Half a step lies on either side; below a power of two the steps are half as
    wide. The ends belong to the even significand. -/
def intervalOf (units : Nat) : Interval :=
  let spare := spareBits units
  let step := Nat.pow 2 spare
  let below := if 0 < spare && units == Nat.pow 2 (precision - 1) * step then step else 2 * step
  { low := 4 * units - below
    value := 4 * units
    high := 4 * units + 2 * step
    closed := units / step % 2 == 0 }

/-! ## Grids of decimals -/

/-- Quarters of a unit in one. -/
def quarters : Nat := 4 * unitsOfOne

/-- `count * 10 ^ exponent` and the quarters of a unit brought to one scale. -/
def scaled (exponent : Int) (count : Nat) : Nat :=
  if exponent < 0 then count * quarters else count * Nat.pow 10 exponent.toNat * quarters

/-- What quarters of a unit are multiplied with on that scale. -/
def scaleFactor (exponent : Int) : Nat :=
  if exponent < 0 then Nat.pow 10 (-exponent).toNat else 1

/-- Whether `count * 10 ^ exponent` reads back as the number of an interval. -/
def readsBack (i : Interval) (exponent : Int) (count : Nat) : Bool :=
  let f := scaleFactor exponent
  let x := scaled exponent count
  if i.closed then i.low * f ≤ x && x ≤ i.high * f else i.low * f < x && x < i.high * f

/-- The points of a grid at and below a number, and above it. -/
def neighbours (i : Interval) (exponent : Int) : Nat × Nat :=
  let below := i.value * scaleFactor exponent / scaled exponent 1
  (below, below + 1)

/-- The nearer of two neighbours, the even one if both are as near. -/
def nearer (i : Interval) (exponent : Int) (a b : Nat) : Nat :=
  let v := i.value * scaleFactor exponent
  let toA := v - scaled exponent a
  let toB := scaled exponent b - v
  if toA < toB then a else if toB < toA then b else if a % 2 = 0 then a else b

/-- The point of a grid that reads back. -/
def onGrid? (i : Interval) (exponent : Int) : Option Nat :=
  let (a, b) := neighbours i exponent
  match readsBack i exponent a, readsBack i exponent b with
  | true, true => some (nearer i exponent a b)
  | true, false => some a
  | false, true => some b
  | false, false => none

/-- The power of ten at or below a positive number. -/
def leadingPower (units : Nat) : Int :=
  let i := intervalOf units
  let guess : Int := ((units.log2 : Int) - unitExponent) * 30103 / 100000
  if scaled (guess + 1) 1 ≤ i.value * scaleFactor (guess + 1) then guess + 1
  else if scaled guess 1 ≤ i.value * scaleFactor guess then guess
  else guess - 1

/-- Zeros at the end move into the power of ten. -/
def withoutZeros : Nat → Nat → Int → Nat × Int
  | 0, digits, exponent => (digits, exponent)
  | fuel + 1, digits, exponent =>
    if digits % 10 = 0 then withoutZeros fuel (digits / 10) (exponent + 1) else (digits, exponent)

/-- Digits and power of ten of a positive number; seventeen digits always read
    back. -/
def shortest (units : Nat) : Nat × Int :=
  let i := intervalOf units
  let top := leadingPower units
  let found := (List.range 17).findSome? fun (n : Nat) =>
    let exponent := top - (n : Int)
    (onGrid? i exponent).map fun digits => (digits, exponent)
  match found with
  | some (digits, exponent) => withoutZeros 18 digits exponent
  | none => (0, 0)

/-! ## The text -/

/-- The zone of positional writing: numbers from `10 ^ from` up to `10 ^ upTo`. -/
structure Positional where
  lowest : Int
  upTo : Int

/-- Numbers from 0.0001 up to 10 ^ 16 are written positionally. -/
def positional : Positional := ⟨-4, 16⟩

/-- A power of ten with a sign and two digits at least. -/
def powerText (e : Int) : Text :=
  let digits := decimal e.natAbs
  (if e < 0 then '-' else '+') :: (if digits.length < 2 then '0' :: digits else digits)

/-- Digits with the point behind the first `point` of them. -/
def positionalText (digits : Text) (point : Int) : Text :=
  if point ≤ 0 then "0".text ++ ".".text ++ List.replicate (-point).toNat (.char '0') ++ digits
  else
    let n := point.toNat
    if digits.length ≤ n then digits ++ List.replicate (n - digits.length) (.char '0') ++ ".0".text
    else digits.take n ++ ".".text ++ digits.drop n

/-- One digit, the point and the others, and the power of ten. -/
def scientificText (digits : Text) (power : Int) : Text :=
  (match digits with
    | d :: rest => if rest.isEmpty then [d] else d :: '.' :: rest
    | [] => []) ++ "e".text ++ powerText power

/-- The text of a number without its sign. -/
def unsignedText (units : Nat) : Text :=
  if units = 0 then "0.0".text
  else
    let (count, exponent) := shortest units
    let digits := decimal count
    let power := exponent + digits.length - 1
    if positional.lowest ≤ power && power < positional.upTo then positionalText digits (power + 1)
    else scientificText digits power

/-- The text of a number: the fewest digits that read back, positional from
    0.0001 up to 10 ^ 16. -/
def text : Double → Text
  | .nan => "nan".text
  | .infinite negative => if negative then "-inf".text else "inf".text
  | .finite negative units => if negative then '-' :: unsignedText units else unsignedText units

end Errand.Double
