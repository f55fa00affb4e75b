/-
  Errand.Yaml.Moment — days and moments as data texts write them.

  A day is a year of four digits, a month and a day of one or two, with hyphens
  between them. A moment has a time behind it, with a fraction of the second and
  the distance from universal time if they are there.
-/

import Errand.Calendar
import Errand.Yaml.Fault

namespace Errand.Yaml

/-- A time of a day. The fraction is given in digits. -/
structure WrittenTime where
  hour : Nat
  minute : Nat
  second : Nat
  fraction : Text
  /-- How many minutes local time is ahead of universal time. -/
  ahead : Option Int

/-- What is written, which need not be on any calendar. -/
structure WrittenMoment where
  day : Day
  /-- Month and day have two digits each. -/
  isPadded : Bool
  time : Option WrittenTime

namespace WrittenMoment

/-! ## Reading -/

/-- `least` to `most` digits, and what follows them. -/
def digits? (least most : Nat) (t : Text) : Option (Text × Text) :=
  let found := (t.take most).takeWhile CodePoint.isDigit
  if found.length < least then none else some (found, t.drop found.length)

/-- The number of a row of digits. -/
def number (digits : Text) : Nat := digits.foldl (fun n c => 10 * n + (c.toNat - 48)) 0

/-- What follows a character. -/
def after? (c : CodePoint) : Text → Option Text
  | [] => none
  | x :: rest => if x = c then some rest else none

def isBlank (c : CodePoint) : Bool := c == ' ' || c == '\t'

/-- What follows the sign of a time: a letter, or blanks. -/
def afterTimeSign? : Text → Option Text
  | [] => none
  | c :: rest =>
    if c = 'T' || c = 't' then some rest
    else if isBlank c then some (rest.dropWhile isBlank)
    else none

/-- How far local time is ahead: nothing written, the letter of universal time, or
    hours and perhaps minutes behind a sign. -/
def ahead? (t : Text) : Option (Option Int) :=
  match t.dropWhile isBlank with
  | [] => if t.isEmpty then some none else none
  | [.char 'Z'] => some (some 0)
  | sign :: rest => do
    let (hours, rest) ← digits? 1 2 rest
    let minutes ← match rest with
      | [] => some []
      | .char ':' :: rest => (digits? 2 2 rest).bind fun (minutes, rest) =>
        if rest.isEmpty then some minutes else none
      | _ => none
    let amount : Int := number hours * 60 + number minutes
    if sign = '+' then some (some amount) else if sign = '-' then some (some (-amount)) else none

def time? (t : Text) : Option WrittenTime := do
  let (hour, t) ← digits? 1 2 t
  let (minute, t) ← digits? 2 2 (← after? ':' t)
  let (second, t) ← digits? 2 2 (← after? ':' t)
  let (fraction, t) := match t with
    | .char '.' :: rest => (rest.takeWhile CodePoint.isDigit, rest.dropWhile CodePoint.isDigit)
    | _ => ([], t)
  return ⟨number hour, number minute, number second, fraction, ← ahead? t⟩

/-- The day or moment that a text is written like. -/
def read? (t : Text) : Option WrittenMoment := do
  let (year, t) ← digits? 4 4 t
  let (month, t) ← digits? 1 2 (← after? '-' t)
  let (day, t) ← digits? 1 2 (← after? '-' t)
  let time ← if t.isEmpty then some none else ((afterTimeSign? t).bind time?).map some
  return ⟨⟨number year, number month, number day⟩, month.length == 2 && day.length == 2, time⟩

/-! ## Values -/

/-- The first six digits of a fraction as millionths. -/
def millionths (fraction : Text) : Nat :=
  number ((fraction ++ List.replicate 6 (CodePoint.char '0')).take 6)

/-- The moment of a day and a time. -/
def moment (day : Day) (t : WrittenTime) : Moment :=
  ⟨day, t.hour, t.minute, t.second, millionths t.fraction, t.ahead⟩

end WrittenMoment

end Errand.Yaml
