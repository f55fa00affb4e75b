/-
  Errand.Calendar — days and moments.

  A day is a date of the Gregorian calendar from year 1 to year 9999. A moment is
  a time of a day to the millionth of a second, which may say how many minutes
  local time is ahead of universal time. Two moments are the same if both say so
  and happen together, or if neither says so and they read alike.
-/

import Errand.Text.Basic

namespace Errand

/-! ## Days -/

structure Day where
  year : Nat
  month : Nat
  day : Nat
  deriving DecidableEq, Repr

namespace Day

def isLeap (year : Nat) : Bool := year % 4 == 0 && (year % 100 != 0 || year % 400 == 0)

def daysIn (year month : Nat) : Nat :=
  if month = 2 then (if isLeap year then 29 else 28)
  else if month = 4 || month = 6 || month = 9 || month = 11 then 30
  else 31

def isValid (d : Day) : Bool :=
  1 ≤ d.year && d.year ≤ 9999 && 1 ≤ d.month && d.month ≤ 12 && 1 ≤ d.day &&
    d.day ≤ daysIn d.year d.month

/-- The number of days before the year. -/
def daysBefore (year : Nat) : Nat :=
  let y := year - 1
  365 * y + y / 4 - y / 100 + y / 400

/-- The place of a day in the row of all days. -/
def place (d : Day) : Nat :=
  (List.range (d.month - 1)).foldl (fun days m => days + daysIn d.year (m + 1)) (daysBefore d.year) + d.day

end Day

/-! ## Moments -/

/-- A time of a day; `ahead` is in minutes. -/
structure Moment where
  day : Day
  hour : Nat
  minute : Nat
  second : Nat
  millionths : Nat
  ahead : Option Int
  deriving DecidableEq, Repr

namespace Moment

/-- Local time is less than a day ahead or behind. -/
def isValid (m : Moment) : Bool :=
  m.day.isValid && m.hour < 24 && m.minute < 60 && m.second < 60 && m.millionths < 1000000 &&
    m.ahead.all fun a => decide (a.natAbs < 24 * 60)

/-- Millionths of a second since the beginning of the calendar, in universal time if
    the moment says how far it is from that. -/
def place (m : Moment) : Int :=
  let minutes : Int := (m.day.place * 24 + m.hour : Nat) * 60 + m.minute - m.ahead.getD 0
  (minutes * 60 + m.second) * 1000000 + m.millionths

def same (a b : Moment) : Bool := a.ahead.isSome == b.ahead.isSome && a.place == b.place

end Moment

/-! ## Texts -/

/-- A number in `width` digits at least. -/
def padded (width n : Nat) : Text :=
  let digits := decimal n
  List.replicate (width - digits.length) (.char '0') ++ digits

/-- Year, month and day with hyphens between them. -/
def Day.text (d : Day) : Text := padded 4 d.year ++ "-".text ++ padded 2 d.month ++ "-".text ++ padded 2 d.day

/-- How far local time is ahead, in hours and minutes. -/
def aheadText (a : Int) : Text :=
  (if a < 0 then "-".text else "+".text) ++ padded 2 (a.natAbs / 60) ++ ":".text ++ padded 2 (a.natAbs % 60)

/-- The day, the time, millionths if there are any, and how far it is ahead if said. -/
def Moment.text (m : Moment) : Text :=
  m.day.text ++ " ".text ++ padded 2 m.hour ++ ":".text ++ padded 2 m.minute ++ ":".text ++ padded 2 m.second ++
    (if m.millionths = 0 then [] else ".".text ++ padded 6 m.millionths) ++
    (m.ahead.map aheadText).getD []

def Day.shown (d : Day) : Text :=
  "datetime.date(".text ++ Text.join ", ".text ([d.year, d.month, d.day].map decimal) ++ ")".text

/-- How far local time is ahead, as a number of days and of seconds that is not
    negative. -/
def aheadShown (a : Int) : Text :=
  if a = 0 then "datetime.timezone.utc".text
  else
    let days := if a < 0 then ["days=-1".text] else []
    let seconds := (a * 60) % 86400
    "datetime.timezone(datetime.timedelta(".text ++
      Text.join ", ".text (days ++ ["seconds=".text ++ signedDecimal seconds]) ++ "))".text

/-- The numbers of a moment; millionths of nothing are left out, and seconds of
    nothing with them. -/
def Moment.shown (m : Moment) : Text :=
  let seconds := if m.millionths = 0 then (if m.second = 0 then [] else [m.second])
    else [m.second, m.millionths]
  let numbers := [m.day.year, m.day.month, m.day.day, m.hour, m.minute] ++ seconds
  let zone := (m.ahead.map fun a => ["tzinfo=".text ++ aheadShown a]).getD []
  "datetime.datetime(".text ++ Text.join ", ".text (numbers.map decimal ++ zone) ++ ")".text

end Errand
