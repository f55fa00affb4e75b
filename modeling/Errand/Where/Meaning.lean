/-
  Errand.Where.Meaning — when a clause holds of an entity.

  A condition looks its property up. A null literal asks whether the property is
  there; any other condition fails where it is not. Texts are compared without
  regard to case, truth values and numbers after bringing the property to a truth
  value or a number, and a property that cannot be brought there fails. Only the
  comparator `=` asks for sameness with a text, a truth value or null; every
  other one asks for difference.

  An integer is brought to a floating point number, and one beyond all of these
  is a fault of the comparison; so is a property that cannot be written as a text,
  and a literal of the wrong kind. And and or leave their second side alone when
  the first one decides.
-/

import Errand.Where.Clause
import Errand.Entity.Kind

namespace Errand

namespace Where

/-- What can go wrong when a condition is tested. -/
inductive TestFault where
  /-- An integer has no floating point number near it. -/
  | numberTooLarge
  | unknownConnective (word : Text)
  /-- An integer to be written has more digits than any may have. -/
  | numeralTooLong
  /-- A text given for a number is none. -/
  | notNumeral
  /-- Something given for a number is neither a number nor a text. -/
  | notNumber
  /-- Something given for a text is none. -/
  | notText
  /-- A connective has no second side. -/
  | oneSided
  deriving DecidableEq, Repr

/-- How the properties of an entity are found. -/
abbrev Lookup := Text → Property

/-- An integer as a floating point number. -/
def floating (n : Int) : Except TestFault Double := (Double.ofInt? n).elim (.error .numberTooLarge) .ok

/-- The words for the truth values. -/
def truthOfWord? (word : Text) : Option Bool :=
  if word = "true".text || word = "yes".text || word = "1".text then some true
  else if word = "false".text || word = "no".text || word = "0".text then some false
  else none

/-- Zero and one stand for the truth values. -/
def truthOfInt? (n : Int) : Option Bool :=
  if n = 0 then some false else if n = 1 then some true else none

/-- The truth value that a value is the same as. -/
def truthOf? : Value → Option Bool
  | .bool b => some b
  | .int n => truthOfInt? n
  | .real x => if x.equal .zero then some false
    else if x.equal (.ofRatio false 1 1) then some true else none
  | _ => none

end Where

/-! ## Bringing properties to texts, numbers and truth values -/

namespace Property

/-- Whether a property is absent or null. -/
def isNull : Property → Bool
  | .missing => true
  | .value .null => true
  | _ => false

def asText : Property → Except Where.TestFault Text
  | .missing => .ok []
  | .value (.bool b) => .ok (if b then "true".text else "false".text)
  | .value v => match v.display? with
    | some t => .ok t
    | none => .error .numeralTooLong
  | .tier t => .ok (Text.lower t.name)
  | .objectKind k => .ok k.word
  | .gender g => .ok g.word

/-- A property as a number, if it is one. -/
def asNumber : Property → Except Where.TestFault (Option Double)
  | .value (.bool b) => (Where.floating (if b then 1 else 0)).map some
  | .value (.int n) => (Where.floating n).map some
  | .value (.real x) => .ok (some x)
  | .value (.text t) => .ok (Numeral.real? t)
  | .tier t => (Where.floating t.number).map some
  | _ => .ok none

/-- A property as a truth value, if it is one. -/
def asTruth? : Property → Option Bool
  | .value (.text t) => Where.truthOfWord? (Text.lower (Text.trim t))
  | .value v => Where.truthOf? v
  | .tier t => Where.truthOfInt? t.number
  | _ => none

end Property

namespace Where

/-! ## Literals from values -/

/-- What a value given for a number comes to. -/
def GivenNumber.ofValue : Value → GivenNumber
  | .bool b => .number (.ofRatio false (if b then 1 else 0) 1)
  | .text t => match Numeral.real? t with
    | some x => .number x
    | none => .notNumeral
  | _ => .notNumber

/-- The literal of a kind that a value is given for. A kind that is no other one is
    that of numbers. -/
def Literal.ofValue (kind : Text) (v : Value) : Literal :=
  if kind = "string".text then
    match v with
    | .text t => .text t
    | _ => .asText
  else if kind = "boolean".text then
    match v with
    | .bool b => .bool b
    | v => .asTruth (!v.isEmpty) (truthOf? v)
  else if kind = "null".text then .null
  else match v with
    | .int n => .number (.integer n)
    | .real x => .number (.real x)
    | v => .asNumber (v.display?.getD []) (.ofValue v)

/-! ## Testing -/

/-- How a comparator compares two numbers; one that no clause can be written with
    never holds. -/
def Comparator.holds : Comparator → Double → Double → Bool
  | .equal, a, b => a.equal b
  | .unequal, a, b => !a.equal b
  | .greater, a, b => b.less a
  | .atLeast, a, b => b.atMost a
  | .less, a, b => a.less b
  | .atMost, a, b => a.atMost b
  | .other _, _, _ => false

/-- Sameness for `=`, difference for every other comparator. -/
def Comparator.sameness (c : Comparator) (same : Bool) : Bool :=
  if c = .equal then same else !same

/-- A numeric literal as a floating point number. -/
def literalNumber : Number → Except TestFault Double
  | .integer n => floating n
  | .real x => .ok x

/-- A value given for a number as a floating point number. -/
def givenNumber : GivenNumber → Except TestFault Double
  | .number x => .ok x
  | .notNumeral => .error .notNumeral
  | .notNumber => .error .notNumber

/-- Whether a condition holds of what its property lookup found. -/
def Condition.holds (c : Condition) (found : Property) : Except TestFault Bool :=
  match c.literal with
  | .null => .ok (c.comparator.sameness (found.isNull))
  | .text t =>
    if found.isNull then .ok false
    else found.asText.map fun text => c.comparator.sameness (Text.lower text == Text.lower t)
  | .bool b =>
    if found.isNull then .ok false
    else match found.asTruth? with
      | none => .ok false
      | some truth => .ok (c.comparator.sameness (truth == b))
  | .number n =>
    if found.isNull then .ok false
    else do
      match ← found.asNumber with
      | none => .ok false
      | some x => return c.comparator.holds x (← literalNumber n)
  | .asNumber _ given =>
    if found.isNull then .ok false
    else do
      match ← found.asNumber with
      | none => .ok false
      | some x => return c.comparator.holds x (← givenNumber given)
  | .asTruth _ truth =>
    if found.isNull then .ok false
    else match found.asTruth? with
      | none => .ok false
      | some t => .ok (c.comparator.sameness (truth == some t))
  | .asText =>
    if found.isNull then .ok false else found.asText.bind fun _ => .error .notText

/-- Whether a tree holds of an entity; no condition holds of no entity. -/
def Expr.holds (lookup : Option Lookup) : Expr → Except TestFault Bool
  | .condition c =>
    match lookup with
    | none => .ok false
    | some find => c.holds (find c.property)
  | .negation e => (e.holds lookup).map (!·)
  | .joined .and a b => do if ← a.holds lookup then b.holds lookup else return false
  | .joined .or a b => do if ← a.holds lookup then return true else b.holds lookup
  | .joined .xor a b => do
    let x ← a.holds lookup
    let y ← b.holds lookup
    return x != y
  | .joined (.other word) _ _ => .error (.unknownConnective word)

/-- Whether a clause holds of an entity. -/
def Clause.holds (c : Clause) (lookup : Option Lookup) : Except TestFault Bool :=
  c.root.holds lookup

/-! ## Statements with one side -/

/-- Two trees are to be joined, but the second is not there. -/
structure OneSided where
  connective : Connective
  first : Expr

/-- The statement as a clause would show it. -/
def OneSided.written (s : OneSided) : Text :=
  s.first.written ++ " ".text ++ s.connective.word ++ " None".text

/-- Whether the first side decides that the statement holds; it is a fault if it does
    not. -/
def OneSided.holds (s : OneSided) (lookup : Option Lookup) : Except TestFault Bool :=
  match s.connective with
  | .and => do if ← s.first.holds lookup then .error .oneSided else return false
  | .or => do if ← s.first.holds lookup then return true else .error .oneSided
  | .xor => (s.first.holds lookup).bind fun _ => .error .oneSided
  | .other word => .error (.unknownConnective word)

end Where

end Errand
