/-
  Errand.Entity.Record — the things a wildcard can stand for.

  A record never holds another one: a location knows the place of its room among
  the rooms, a category that of its usual location, an object that of its
  category. `Entity` is a record together with its own place, so that two records
  of equal content are still two entities.
-/

import Errand.Entity.Kind
import Errand.Entity.Name

namespace Errand

/-! ## Records -/

structure Room where
  name : Name
  properties : Properties

/-- A piece of furniture or a doorway, perhaps in a known room. -/
structure Location where
  name : Name
  room : Option Nat
  /-- Objects can be put there. -/
  isPlacement : Bool
  /-- A robot can find its way by it. -/
  isBeacon : Bool
  properties : Properties

/-- A class of objects, with the location where they usually are. -/
structure Category where
  name : Name
  location : Option Nat
  properties : Properties

structure Object where
  name : Name
  kind : ObjectKind
  tier : Tier
  category : Option Nat
  properties : Properties

structure Person where
  name : Name
  gender : Gender
  properties : Properties

structure Gesture where
  name : Name
  tier : Tier
  properties : Properties

/-- The words of a question and its answer are mostly texts, but any value will
    do. -/
structure Question where
  question : Value
  answer : Value
  tier : Tier
  properties : Properties

/-! ## Entities -/

/-- A record and its place among the records of its kind. -/
inductive Entity where
  | room (place : Nat) (r : Room)
  | location (place : Nat) (l : Location)
  | category (place : Nat) (c : Category)
  | object (place : Nat) (o : Object)
  | person (place : Nat) (p : Person)
  | gesture (place : Nat) (g : Gesture)
  | question (place : Nat) (q : Question)

namespace Entity

/-- The word for the kind of an entity, which clauses find as its kind. -/
def kindWord : Entity → Text
  | .room .. => "room".text
  | .location .. => "location".text
  | .category .. => "category".text
  | .object .. => "object".text
  | .person .. => "name".text
  | .gesture .. => "gesture".text
  | .question .. => "question".text

/-- What a sentence calls an entity. It never gives away a question, which is
    called just that. -/
def name : Entity → Name
  | .room _ r => r.name
  | .location _ l => l.name
  | .category _ c => c.name
  | .object _ o => o.name
  | .person _ p => p.name
  | .gesture _ g => g.name
  | .question _ _ => .text "question".text

/-- The lines that an entity adds to the metadata of a task: a question and its
    answer. -/
def metadata : Entity → List Text
  | .question _ q => ["Q: ".text ++ q.question.display?.getD [],
      "A: ".text ++ q.answer.display?.getD []]
  | _ => []

def properties : Entity → Properties
  | .room _ r => r.properties
  | .location _ l => l.properties
  | .category _ c => c.properties
  | .object _ o => o.properties
  | .person _ p => p.properties
  | .gesture _ g => g.properties
  | .question _ q => q.properties

/-- The tier of an entity of a kind that has tiers. -/
def tier? : Entity → Option Tier
  | .object _ o => some o.tier
  | .gesture _ g => some g.tier
  | .question _ q => some q.tier
  | _ => none

/-- The fields of a record that clauses can name; a tier answers to two names, a
    question not to the name of a name. -/
def field? (property : Text) : Entity → Option Property
  | .room _ r =>
    if property = "name".text then some (.value r.name.value) else none
  | .location _ l =>
    if property = "name".text then some (.value l.name.value)
    else if property = "placement".text then some (.value (.bool l.isPlacement))
    else if property = "beacon".text then some (.value (.bool l.isBeacon))
    else none
  | .category _ c =>
    if property = "name".text then some (.value c.name.value) else none
  | .object _ o =>
    if property = "name".text then some (.value o.name.value)
    else if property = "type".text then some (.objectKind o.kind)
    else if property = "tier".text || property = "difficulty".text then some (.tier o.tier)
    else none
  | .person _ p =>
    if property = "name".text then some (.value p.name.value)
    else if property = "gender".text then some (.gender p.gender)
    else none
  | .gesture _ g =>
    if property = "name".text then some (.value g.name.value)
    else if property = "tier".text || property = "difficulty".text then some (.tier g.tier)
    else none
  | .question _ q =>
    if property = "question".text then some (.value q.question)
    else if property = "answer".text then some (.value q.answer)
    else if property = "tier".text || property = "difficulty".text then some (.tier q.tier)
    else none

/-- What an entity itself has under the name of a property: its kind, then its
    fields, then its free properties. -/
def property (e : Entity) (name : Text) : Property :=
  if name = "kind".text then .value (.text e.kindWord)
  else match e.field? name with
    | some found => found
    | none => match e.properties.get? name with
      | some v => .value v
      | none => .missing

end Entity

end Errand
