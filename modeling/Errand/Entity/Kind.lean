/-
  Errand.Entity.Kind — difficulty tiers, genders and kinds of objects, and how
  they are read from data.

  A tier is recognised by its name in any case or by its number; a gender or a
  kind of object by its name in any case. What is not recognised becomes a
  default that the reader chooses.
-/

import Errand.Text.Case
import Errand.Number.Numeral
import Errand.Value

namespace Errand

/-! ## Tiers -/

/-- How hard an entity or a grammar is. -/
inductive Tier where
  | unknown
  | zero
  | easy
  | moderate
  | high
  deriving DecidableEq, Repr

namespace Tier

def all : List Tier := [.unknown, .zero, .easy, .moderate, .high]

/-- Tiers are compared by these numbers. -/
def number : Tier → Int
  | .unknown => -1
  | .zero => 0
  | .easy => 1
  | .moderate => 3
  | .high => 5

/-- The name in capitals. -/
def name : Tier → Text
  | .unknown => "UNKNOWN".text
  | .zero => "NONE".text
  | .easy => "EASY".text
  | .moderate => "MODERATE".text
  | .high => "HIGH".text

/-- The name with one capital. -/
def title : Tier → Text
  | .unknown => "Unknown".text
  | .zero => "None".text
  | .easy => "Easy".text
  | .moderate => "Moderate".text
  | .high => "High".text

instance : LE Tier := ⟨fun a b => a.number ≤ b.number⟩
instance : LT Tier := ⟨fun a b => a.number < b.number⟩
instance (a b : Tier) : Decidable (a ≤ b) := inferInstanceAs (Decidable (a.number ≤ b.number))
instance (a b : Tier) : Decidable (a < b) := inferInstanceAs (Decidable (a.number < b.number))

def ofNumber? (n : Int) : Option Tier := all.find? (·.number == n)

/-- The tier a text names, in any case, or gives the number of. -/
def ofText? (t : Text) : Option Tier :=
  let key := (Text.trim t).map Text.basicCapital
  match all.find? (·.name == key) with
  | some tier => some tier
  | none => (Numeral.integer? key).bind ofNumber?

/-- The tier a value stands for. -/
def ofValue? : Value → Option Tier
  | .int n => ofNumber? n
  | .text t => ofText? t
  | _ => none

end Tier

/-! ## Genders and kinds of objects -/

inductive Gender where
  | female
  | male
  deriving DecidableEq, Repr

namespace Gender

/-- The name in small letters. -/
def word : Gender → Text
  | .female => "female".text
  | .male => "male".text

/-- The gender a value names, in any case. -/
def ofValue? : Value → Option Gender
  | .text t => [.female, .male].find? (·.word == Text.lower (Text.trim t))
  | _ => none

end Gender

inductive ObjectKind where
  | known
  | alike
  | special
  | unknown
  deriving DecidableEq, Repr

namespace ObjectKind

/-- The name in small letters. -/
def word : ObjectKind → Text
  | .known => "known".text
  | .alike => "alike".text
  | .special => "special".text
  | .unknown => "unknown".text

/-- The kind of object a value names, in any case. -/
def ofValue? : Value → Option ObjectKind
  | .text t => [.known, .alike, .special, .unknown].find? (·.word == Text.lower (Text.trim t))
  | _ => none

/-- The tier of an object for which none was given. -/
def defaultTier : ObjectKind → Tier
  | .alike => .moderate
  | .known => .easy
  | _ => .unknown

end ObjectKind

/-! ## What a property lookup finds -/

/-- What is found under the name of a property. -/
inductive Property where
  | missing
  | value (v : Value)
  | tier (t : Tier)
  | objectKind (k : ObjectKind)
  | gender (g : Gender)

end Errand
