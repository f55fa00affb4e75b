/-
  Errand.Scalar — the values that have no parts.

  Only a scalar can be a key of a mapping or a member of a set. Here: how a scalar is
  shown, which scalars count as empty, and when two of them are the same key.
-/

import Errand.Bytes
import Errand.Calendar
import Errand.Number.Numeral
import Errand.Number.Shortest

namespace Errand

inductive Scalar where
  | null
  | bool (b : Bool)
  | int (n : Int)
  | real (x : Double)
  | text (t : Text)
  | bytes (bs : Bytes)
  | day (d : Day)
  | moment (m : Moment)
  deriving DecidableEq, Repr, Inhabited

namespace Scalar

/-! ## Showing a scalar -/

/-- `True` and `False`. -/
def boolText (b : Bool) : Text := if b then "True".text else "False".text

/-- An integer in decimal digits, if it has no more of them than any may have. -/
def intText? (n : Int) : Option Text :=
  if n.natAbs < Nat.pow 10 Numeral.maxDigits then some (signedDecimal n) else none

/-- A scalar as shown inside a message: texts stand in quotes. An integer of too many
    digits cannot be shown. -/
def shown? : Scalar → Option Text
  | .null => some "None".text
  | .bool b => some (boolText b)
  | .int n => intText? n
  | .real x => some x.text
  | .text t => some (Text.shown t)
  | .bytes bs => some bs.shown
  | .day d => some d.shown
  | .moment m => some m.shown

/-- A scalar as a text: a text is itself, days and moments are as one writes them, all
    else is as shown. -/
def display? : Scalar → Option Text
  | .text t => some t
  | .day d => some d.text
  | .moment m => some m.text
  | s => s.shown?

/-- The name of a scalar's kind, as messages give it. -/
def kindName : Scalar → Text
  | .null => "NoneType".text
  | .bool _ => "bool".text
  | .int _ => "int".text
  | .real _ => "float".text
  | .text _ => "str".text
  | .bytes _ => "bytes".text
  | .day _ => "date".text
  | .moment _ => "datetime".text

/-- Null, false, zero, the empty text and no bytes count as empty. -/
def isEmpty : Scalar → Bool
  | .null => true
  | .bool b => !b
  | .int n => n == 0
  | .real x => x.equal .zero
  | .text t => t.isEmpty
  | .bytes bs => bs.isEmpty
  | .day _ | .moment _ => false

/-! ## Keys -/

/-- A number as its place on the line of floating point units, exactly. -/
def place? : Scalar → Option Int
  | .bool b => some (if b then (Double.unitsOfOne : Int) else 0)
  | .int n => some (n * Double.unitsOfOne)
  | .real (.finite negative units) => some (if negative then -(units : Int) else units)
  | _ => none

/-- Whether two scalars are one and the same key: numbers and truth values by their
    amount, all else by kind and content. What is not a number is the same as itself
    here, though as a number it differs from itself. -/
def same (a b : Scalar) : Bool :=
  match a, b with
  | .null, .null => true
  | .text s, .text t => s == t
  | .bytes s, .bytes t => s == t
  | .day s, .day t => s == t
  | .moment s, .moment t => s.same t
  | .real (.infinite s), .real (.infinite t) => s == t
  | .real .nan, .real .nan => true
  | a, b => match a.place?, b.place? with
    | some x, some y => x == y
    | _, _ => false

end Scalar

end Errand
