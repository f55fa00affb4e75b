/-
  Errand.Number.Double — binary floating point numbers of 64 bits, exactly.

  Every finite one is a whole number of the smallest positive one, 2 ^ (-1074):
  these are its units. Comparing is comparing units, and rounding is rounding a
  quotient to a multiple of a power of two that leaves 53 significant bits, a
  half going to the even multiple.
-/

namespace Errand

/-- A 64-bit floating point number; `units` counts the smallest positive one. -/
inductive Double where
  | nan
  | infinite (negative : Bool)
  | finite (negative : Bool) (units : Nat)
  deriving DecidableEq, Repr

namespace Double

/-- Bits of a significand. -/
def precision : Nat := 53

/-- One is `2 ^ unitExponent` units. -/
def unitExponent : Nat := 1074

def unitsOfOne : Nat := Nat.pow 2 unitExponent

/-- Finite numbers have fewer than `2 ^ topExponent` units. -/
def topExponent : Nat := 1024 + unitExponent

def zero : Double := .finite false 0

/-! ## Rounding -/

/-- The quotient rounded to the nearest whole number, a half to the even one. -/
def roundQuotient (num den : Nat) : Nat :=
  let q := num / den
  let r := num % den
  if 2 * r < den then q
  else if den < 2 * r then q + 1
  else if q % 2 = 0 then q else q + 1

/-- How many low bits a number of `units` units has no room for. -/
def spareBits (units : Nat) : Nat := units.log2 + 1 - precision

/-- The units nearest to the quotient that a significand has room for. -/
def roundUnits (num den : Nat) : Nat :=
  let spare := spareBits (num / den)
  roundQuotient num (den * Nat.pow 2 spare) * Nat.pow 2 spare

/-- The number nearest to a quotient. -/
def ofRatio (negative : Bool) (num den : Nat) : Double :=
  let units := roundUnits (num * unitsOfOne) den
  if units < Nat.pow 2 topExponent then .finite negative units else .infinite negative

/-- A number that is finite. -/
def finite? : Double → Option Double
  | .finite negative units => some (.finite negative units)
  | _ => none

/-- The number nearest to an integer; none when it lies beyond all finite ones. -/
def ofInt? (n : Int) : Option Double := finite? (ofRatio (decide (n < 0)) n.natAbs 1)

/-- Beyond these powers of ten a number is infinite or zero whatever its digits. -/
def largestPower : Int := 400

/-- The number nearest to `digits * 10 ^ exponent`. -/
def ofDecimal (negative : Bool) (digits : Nat) (exponent : Int) : Double :=
  let size : Int := exponent + (toString digits).length
  if digits = 0 then .finite negative 0
  else if largestPower < size then .infinite negative
  else if size < -largestPower then .finite negative 0
  else if exponent < 0 then ofRatio negative digits (Nat.pow 10 (-exponent).toNat)
  else ofRatio negative (digits * Nat.pow 10 exponent.toNat) 1

/-! ## Order -/

/-- The place on the line in units; the infinities lie just beyond the finite
    numbers, and what is not a number has no place. -/
def place? : Double → Option Int
  | .nan => none
  | .infinite negative => some (if negative then -(Nat.pow 2 topExponent : Int) else (Nat.pow 2 topExponent : Int))
  | .finite negative units => some (if negative then -(units : Int) else units)

/-- A relation of places; false where one side has none. -/
def compareBy (r : Int → Int → Bool) (a b : Double) : Bool :=
  match a.place?, b.place? with
  | some x, some y => r x y
  | _, _ => false

def equal (a b : Double) : Bool := compareBy (fun x y => x == y) a b

def less (a b : Double) : Bool := compareBy (fun x y => decide (x < y)) a b

def atMost (a b : Double) : Bool := compareBy (fun x y => decide (x ≤ y)) a b

/-! ## Sums and products -/

def isNegative : Double → Bool
  | .nan => false
  | .infinite negative => negative
  | .finite negative _ => negative

def negated : Double → Double
  | .nan => .nan
  | .infinite negative => .infinite !negative
  | .finite negative units => .finite (!negative) units

/-- The number nearest to a sum. A sum of nothing is positive unless both sides
    are negative. -/
def add : Double → Double → Double
  | .finite a x, .finite b y =>
    let sum : Int := (if a then -(x : Int) else x) + (if b then -(y : Int) else y)
    ofRatio (if sum = 0 then a && b else decide (sum < 0)) sum.natAbs unitsOfOne
  | .infinite a, .infinite b => if a = b then .infinite a else .nan
  | .infinite a, .finite .. => .infinite a
  | .finite .., .infinite b => .infinite b
  | _, _ => .nan

/-- The number nearest to a product. -/
def mul (p q : Double) : Double :=
  let negative := p.isNegative != q.isNegative
  match p, q with
  | .finite _ x, .finite _ y => ofRatio negative (x * y) (unitsOfOne * unitsOfOne)
  | .finite _ x, .infinite _ | .infinite _, .finite _ x => if x = 0 then .nan else .infinite negative
  | .infinite _, .infinite _ => .infinite negative
  | _, _ => .nan

end Double

end Errand
