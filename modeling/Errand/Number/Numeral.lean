/-
  Errand.Number.Numeral — numbers written in decimal digits, read as integers
  and as floating point numbers.

  A numeral may have a sign, digits of any script and single underscores between
  two digits; a real one may have a fraction and an exponent, or name an infinity
  or what is not a number. An integer has at most 4300 digits.
-/

import Errand.Text.Basic
import Errand.Text.Alphabet
import Errand.Number.Double

namespace Errand.Numeral

/-- The most digits an integer may be written with. -/
def maxDigits : Nat := 4300

/-- The number a row of decimal digits stands for. -/
def value (digits : Text) : Nat :=
  digits.foldl (fun n c => 10 * n + (Text.digitValue? c).getD 0) 0

/-- The sign in front of a numeral, and what follows it. -/
def sign : Text → Bool × Text
  | .char '-' :: rest => (true, rest)
  | .char '+' :: rest => (false, rest)
  | t => (false, t)

/-- A row of digits without the underscores between them; none where an
    underscore does not stand between two digits. -/
def ungrouped : Text → Option Text
  | [] => some []
  | [c] => if c = '_' then none else some [c]
  | c :: .char '_' :: d :: rest =>
    if Text.isAnyDigit c && Text.isAnyDigit d then (ungrouped (d :: rest)).map (c :: ·) else none
  | c :: rest => if c = '_' then none else (ungrouped rest).map (c :: ·)

/-- Signed by a flag. -/
def signed (negative : Bool) (n : Nat) : Int := if negative then -(n : Int) else n

/-- The integer a text stands for. -/
def integer? (t : Text) : Option Int := do
  let (negative, rest) := sign (Text.trim t)
  let digits ← ungrouped rest
  if digits.isEmpty || !digits.all Text.isAnyDigit || maxDigits < digits.length then none
  else some (signed negative (value digits))

/-- The value of a digit in a base: digits of any script, then Latin letters. -/
def digitIn? (base : Nat) (c : CodePoint) : Option Nat :=
  let value : Option Nat :=
    if 'a' ≤ c && c ≤ 'z' then some (c.toNat - 87)
    else if 'A' ≤ c && c ≤ 'Z' then some (c.toNat - 55)
    else Text.digitValue? c
  value.filter (· < base)

/-- The letter behind a zero that announces a base. -/
def baseLetter (base : Nat) : CodePoint := if base = 16 then 'x' else if base = 8 then 'o' else 'b'

/-- A numeral in base two, eight or sixteen without the zero of any script and the
    letter that may announce the base. -/
def unannounced (base : Nat) : Text → Text
  | zero :: c :: rest =>
    if Text.digitValue? zero = some 0 && c.toLower = baseLetter base then rest else zero :: c :: rest
  | t => t

/-- The integer that a text without underscores stands for in base two, eight or
    sixteen, with as many digits as it likes. -/
def integerIn? (base : Nat) (t : Text) : Option Int := do
  let (negative, rest) := sign (Text.trim t)
  let digits := unannounced base rest
  if digits.isEmpty then none
  else
    let n ← digits.foldlM (fun n c => (digitIn? base c).map (base * n + ·)) 0
    return signed negative n

/-- An exponent: a sign and digits. -/
def exponent? (t : Text) : Option Int :=
  let (negative, digits) := sign t
  if digits.isEmpty || !digits.all Text.isAnyDigit then none
  else some (signed negative (value digits))

/-- Digits before and after a point, and an exponent, as a floating point number. -/
def real (negative : Bool) (whole fraction : Text) (exponent : Int) : Double :=
  Double.ofDecimal negative (value (whole ++ fraction)) (exponent - fraction.length)

/-- The number of an unsigned text of digits, with a fraction and an exponent if
    they are there. -/
def unsignedReal? (negative : Bool) (t : Text) : Option Double := do
  let whole := t.takeWhile Text.isAnyDigit
  let afterWhole := t.dropWhile Text.isAnyDigit
  let (fraction, afterFraction) := match afterWhole with
    | .char '.' :: rest => (rest.takeWhile Text.isAnyDigit, rest.dropWhile Text.isAnyDigit)
    | rest => ([], rest)
  if whole.isEmpty && fraction.isEmpty then none
  else match afterFraction with
    | [] => some (real negative whole fraction 0)
    | c :: rest =>
      if c = 'e' || c = 'E' then (exponent? rest).map (real negative whole fraction) else none

/-- The floating point number a text stands for. -/
def real? (t : Text) : Option Double := do
  let (negative, rest) := sign (Text.trim t)
  let plain ← ungrouped rest
  let word := plain.map CodePoint.toLower
  if word = "inf".text || word = "infinity".text then some (.infinite negative)
  else if word = "nan".text then some .nan
  else unsignedReal? negative plain

end Errand.Numeral
