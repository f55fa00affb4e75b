/-
  Errand.Yaml.Plain — the kind of data that shows in the letters of a scalar.

  A scalar without a tag that is not in quotes is nothing, a truth value, an
  integer, a floating point number, a day or a moment, a mark of merging or of
  standing in, or else a text. A line feed at the very end does not matter, unless
  there is nothing else.
-/

import Errand.Yaml.Moment
import Errand.Yaml.Tag
import Errand.Number.Numeral

namespace Errand.Yaml.Plain

/-! ## Integers -/

/-- A class of characters all through a text that is not empty. -/
def isRun (p : CodePoint → Bool) (t : Text) : Bool := !t.isEmpty && t.all p

def isDigitOrGap (c : CodePoint) : Bool := c.isDigit || c == '_'

/-- One digit, or two of which the first is at most five. -/
def isSixtieth : Text → Bool
  | [a] => a.isDigit
  | [a, b] => '0' ≤ a && a ≤ '5' && b.isDigit
  | _ => false

/-- The parts between colons. -/
def colonParts : Text → List Text
  | [] => [[]]
  | c :: rest =>
    match colonParts rest with
    | [] => [[c]]
    | part :: more => if c = ':' then [] :: part :: more else (c :: part) :: more

/-- A first part that begins with a digit other than zero, or any digit where
    `zeroToo` says so, and sixtieths behind it. -/
def isSexagesimal (zeroToo : Bool) (t : Text) : Bool :=
  match colonParts t with
  | (first :: more) :: a :: rest =>
    (first.isDigit && (zeroToo || first != '0')) && more.all isDigitOrGap && (a :: rest).all isSixtieth
  | _ => false

/-- Whether an unsigned text is written as an integer. -/
def isInteger (t : Text) : Bool :=
  match t with
  | .char '0' :: .char 'b' :: more => isRun (fun c => c == '0' || c == '1' || c == '_') more
  | .char '0' :: .char 'x' :: more => isRun (fun c => (Scalar.hexValue? c).isSome || c == '_') more
  | .char '0' :: more => more.all fun c => ('0' ≤ c && c ≤ '7') || c == '_'
  | c :: more => (c.isDigit && more.all isDigitOrGap) || isSexagesimal false t
  | [] => false

/-! ## Floating point numbers -/

/-- An exponent, which has a sign. -/
def isExponent : Text → Bool
  | [] => true
  | c :: sign :: digits =>
    (c == 'e' || c == 'E') && (sign == '+' || sign == '-') && isRun CodePoint.isDigit digits
  | _ => false

/-- Digits, a point, more digits perhaps, and an exponent perhaps. -/
def isPointed (t : Text) : Bool :=
  match t.dropWhile isDigitOrGap with
  | .char '.' :: rest =>
    (t.head?.map CodePoint.isDigit).getD false && isExponent (rest.dropWhile isDigitOrGap)
  | _ => false

/-- Sixtieths and a point behind them. -/
def isPointedSexagesimal (t : Text) : Bool :=
  match t.dropWhile (· != CodePoint.char '.') with
  | .char '.' :: rest => isSexagesimal true (t.takeWhile (· != CodePoint.char '.')) && rest.all isDigitOrGap
  | _ => false

/-- A point and a digit first. -/
def isFraction : Text → Bool
  | .char '.' :: c :: rest => c.isDigit && isExponent (rest.dropWhile isDigitOrGap)
  | _ => false

/-- Whether a text is one of some words. -/
def isWord (words : List String) (t : Text) : Bool := words.any fun w => w.text == t

/-- Whether a text is written as a floating point number. A number that begins with
    its point has no sign, and what is not a number has none. -/
def isReal (t : Text) : Bool :=
  let unsigned := (Numeral.sign t).2
  isPointed unsigned || isFraction t || isPointedSexagesimal unsigned ||
    isWord [".inf", ".Inf", ".INF"] unsigned || isWord [".nan", ".NaN", ".NAN"] t

/-! ## Kinds -/

def nullWords : List String := ["~", "null", "Null", "NULL"]

def truthWords : List String :=
  ["yes", "Yes", "YES", "no", "No", "NO", "true", "True", "TRUE", "false", "False", "FALSE",
    "on", "On", "ON", "off", "Off", "OFF"]

/-- Whether a text is written as a day, with two digits for month and day, or as a
    moment. -/
def isMoment (t : Text) : Bool :=
  match WrittenMoment.read? t with
  | some m => m.isPadded || m.time.isSome
  | none => false

/-- The kind of a text that is not empty. -/
def kindOf (t : Text) : Tag :=
  if isWord nullWords t then .null
  else if isWord truthWords t then .truth
  else if isInteger (Numeral.sign t).2 then .integer
  else if isReal t then .real
  else if isMoment t then .moment
  else if t = "<<".text then .merge
  else if t = "=".text then .standIn
  else if isWord ["!", "&", "*"] t then .unknown
  else .text

/-- A text without a line feed at its end. -/
def withoutLastFeed (t : Text) : Text := if t.getLast? = some '\n' then t.dropLast else t

end Errand.Yaml.Plain

namespace Errand.Yaml

/-- The kind of a scalar by its letters. -/
def Tag.ofPlain (t : Text) : Tag := if t.isEmpty then .null else Plain.kindOf (Plain.withoutLastFeed t)

end Errand.Yaml
