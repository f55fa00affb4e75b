/-
  Errand.Yaml.Leaf — the values that scalars stand for.

  An integer or a floating point number may be written in sixtieths, parts between
  colons. Underscores in numbers do not matter. What a tag makes of a scalar it
  makes of any text, whatever it looks like; if it cannot, that is a fault.
-/

import Errand.Yaml.Plain
import Errand.Scalar

namespace Errand.Yaml.Leaf

/-- A sign at the very front, if there is one, and what follows; the text is not
    empty. -/
def signed (t : Text) : Except Fault (Bool × Text) :=
  if t.isEmpty then .error .emptyNumber else .ok (Numeral.sign t)

def orNotNumber : Option α → Except Fault α
  | some a => .ok a
  | none => .error .notNumber

/-! ## Integers -/

/-- An integer without the sign in front: in base two, sixteen or eight if it is
    announced, else in decimal sixtieths. -/
def unsignedInteger : Text → Except Fault Int
  | [] => .error .emptyNumber
  | [.char '0'] => .ok 0
  | .char '0' :: .char 'b' :: digits => orNotNumber (Numeral.integerIn? 2 digits)
  | .char '0' :: .char 'x' :: digits => orNotNumber (Numeral.integerIn? 16 digits)
  | .char '0' :: rest => orNotNumber (Numeral.integerIn? 8 ('0' :: rest))
  | t => (Plain.colonParts t).foldlM (fun n part => do
      return 60 * n + (← orNotNumber (Numeral.integer? part))) 0

def integer (t : Text) : Except Fault Int := do
  let (negative, unsigned) ← signed (t.filter (· != CodePoint.char '_'))
  let n ← unsignedInteger unsigned
  return if negative then -n else n

/-! ## Floating point numbers -/

/-- The sum of sixtieths, from the last part to the first and rounded after each
    step. The weight of a part must lie among the floating point numbers. -/
def sixtieths (parts : List Double) : Except Fault Double := do
  let step (acc : Double × Nat) (part : Double) : Except Fault (Double × Nat) :=
    match Double.ofInt? acc.2 with
    | some weight => .ok (acc.1.add (part.mul weight), acc.2 * 60)
    | none => .error .tooLarge
  return (← parts.reverse.foldlM step (.zero, 1)).1

/-- A floating point number in small letters without the sign in front. -/
def unsignedReal (t : Text) : Except Fault Double :=
  if t = ".inf".text then .ok (.infinite false)
  else if t = ".nan".text then .ok .nan
  else if t.contains ':' then do
    sixtieths (← (Plain.colonParts t).mapM fun part => orNotNumber (Numeral.real? part))
  else orNotNumber (Numeral.real? t)

/-- A floating point number in small letters and without underscores. -/
def plainReal (t : Text) : Text := (t.filter (· != CodePoint.char '_')).map CodePoint.toLower

def real (t : Text) : Except Fault Double := do
  let (negative, unsigned) ← signed (plainReal t)
  let x ← unsignedReal unsigned
  return if negative then x.negated else x

/-- Whether a text is the usual word for what is not a number. -/
def isUsualNan (t : Text) : Bool := (Numeral.sign (plainReal t)).2 == ".nan".text

/-! ## Other kinds -/

/-- The words for truth values in small letters. -/
def truthWords : List (String × Bool) :=
  [("yes", true), ("no", false), ("true", true), ("false", false), ("on", true), ("off", false)]

def truth (t : Text) : Except Fault Bool :=
  match truthWords.find? fun (word, _) => word.text == t.map CodePoint.toLower with
  | some (_, b) => .ok b
  | none => .error .notTruth

/-- Bytes in base 64. -/
def bytes (t : Text) : Except Fault Bytes :=
  match Bytes.ofBase64? t with
  | some bs => if t.all fun c => c.toNat < 128 then .ok bs else .error .malformed
  | none => .error .malformed

/-- A day or a moment of the calendar. -/
def moment (t : Text) : Except Fault Scalar :=
  match WrittenMoment.read? (Plain.withoutLastFeed t) with
  | none => .error .notMoment
  | some m =>
    match m.time with
    | none => if m.day.isValid then .ok (.day m.day) else .error .noSuchMoment
    | some time =>
      let at_ := WrittenMoment.moment m.day time
      if at_.isValid then .ok (.moment at_) else .error .noSuchMoment

/-- The scalar that a text of a kind stands for, unless that is a kind of collections or
    of special keys. -/
def scalar? (tag : Tag) (t : Text) : Option (Except Fault Scalar) :=
  match tag with
  | .null => some (.ok .null)
  | .truth => some ((truth t).map .bool)
  | .integer => some ((integer t).map .int)
  | .real => some ((real t).map .real)
  | .bytes => some ((bytes t).map .bytes)
  | .moment => some (moment t)
  | .text => some (.ok (.text t))
  | _ => none

end Errand.Yaml.Leaf
