/-
  Errand.Task.Pool — the entities that wildcards draw from.

  There is one pool for each domain of wildcards. A draw takes one entity out of
  its pool for good: the first one that is of the kind asked for and fulfils the
  clause, or the last one of all if nothing is asked for. A pool keeps the order
  that it was given at the beginning.
-/

import Errand.Entity.Store
import Errand.Where.Meaning

namespace Errand

/-! ## Domains and kinds -/

inductive Domain where
  | category
  | gesture
  | place
  | person
  | object
  | question
  deriving DecidableEq, Repr

namespace Domain

def word : Domain → Text
  | .category => "category".text
  | .gesture => "gesture".text
  | .place => "location".text
  | .person => "name".text
  | .object => "object".text
  | .question => "question".text

end Domain

/-- A kind of entity within a domain. -/
inductive Filter where
  | beacon
  | placement
  | room
  | male
  | female
  | known
  | alike
  deriving DecidableEq, Repr

namespace Filter

def word : Filter → Text
  | .beacon => "beacon".text
  | .placement => "placement".text
  | .room => "room".text
  | .male => "male".text
  | .female => "female".text
  | .known => "kobject".text
  | .alike => "aobject".text

/-- Whether an entity is of the kind. -/
def admits : Filter → Entity → Bool
  | .beacon, .location _ l => l.isBeacon
  | .placement, .location _ l => l.isPlacement
  | .room, .room .. => true
  | .male, .person _ p => p.gender == .male
  | .female, .person _ p => p.gender == .female
  | .known, .object _ o => o.kind == .known
  | .alike, .object _ o => o.kind == .alike
  | _, _ => false

end Filter

/-! ## Wishes -/

/-- What a wildcard asks for within a domain. -/
inductive Wish where
  /-- Whatever is there. -/
  | whole (domain : Domain)
  /-- Something of one kind. -/
  | only (domain : Domain) (filter : Filter)
  /-- Something of one of several kinds; the kind is drawn first. -/
  | drawn (domain : Domain) (filters : List Filter)
  deriving DecidableEq, Repr

namespace Wish

def domain : Wish → Domain
  | .whole d | .only d _ | .drawn d _ => d

/-- The wish for one of several kinds, of which the subtype can name one. -/
def ofKinds (domain : Domain) (filters : List Filter) (subtype : Option Text) : Wish :=
  match filters.find? fun f => subtype == some f.word with
  | some f => .only domain f
  | none => .drawn domain filters

/-- The wish for an object; some subtypes name a kind. -/
def ofObject (subtype : Option Text) : Wish :=
  if subtype = some "known".text then .only .object .known
  else if subtype = some "alike".text then .only .object .alike
  else .whole .object

/-- The names that stand for entities, each with the wish that it expresses together
    with a subtype. -/
def names : List (Text × (Option Text → Wish)) :=
  [ ("object".text, ofObject),
    ("kobject".text, fun _ => .only .object .known),
    ("aobject".text, fun _ => .only .object .alike),
    ("location".text, ofKinds .place [.beacon, .placement, .room]),
    ("beacon".text, fun _ => .only .place .beacon),
    ("placement".text, fun _ => .only .place .placement),
    ("room".text, fun _ => .only .place .room),
    ("name".text, ofKinds .person [.male, .female]),
    ("male".text, fun _ => .only .person .male),
    ("female".text, fun _ => .only .person .female),
    ("category".text, fun _ => .whole .category),
    ("gesture".text, fun _ => .whole .gesture),
    ("question".text, fun _ => .whole .question) ]

/-- The wish of a wildcard, if its name stands for entities. -/
def ofName? (name : Text) (subtype : Option Text) : Option Wish :=
  (names.lookup name).map fun wish => wish subtype

end Wish

/-! ## Pools -/

structure Pools where
  categories : List Entity
  gestures : List Entity
  places : List Entity
  people : List Entity
  objects : List Entity
  questions : List Entity

namespace Pools

def get (p : Pools) : Domain → List Entity
  | .category => p.categories
  | .gesture => p.gestures
  | .place => p.places
  | .person => p.people
  | .object => p.objects
  | .question => p.questions

def set (p : Pools) (domain : Domain) (pool : List Entity) : Pools :=
  match domain with
  | .category => { p with categories := pool }
  | .gesture => { p with gestures := pool }
  | .place => { p with places := pool }
  | .person => { p with people := pool }
  | .object => { p with objects := pool }
  | .question => { p with questions := pool }

@[simp]
theorem get_set_same (p : Pools) (d : Domain) (pool : List Entity) : (p.set d pool).get d = pool := by
  cases d <;> rfl

theorem get_set_other (p : Pools) {d e : Domain} (pool : List Entity) (h : e ≠ d) :
    (p.set d pool).get e = p.get e := by
  cases d <;> cases e <;> first | rfl | exact absurd rfl h

/-- The entities of a store that may be drawn: those of a kind with tiers only up to
    the one given. -/
def ofStore (s : Store) (tier : Tier) : Pools :=
  let tiered (es : List Entity) : List Entity := es.filter fun e => e.tier?.all (· ≤ tier)
  { categories := s.categoryEntities
    gestures := tiered s.gestureEntities
    places := s.places
    people := s.personEntities
    objects := tiered s.objectEntities
    questions := tiered s.questionEntities }

end Pools

/-! ## Drawing -/

/-- Whether an entity is of a kind, if one is asked for, and fulfils a clause, if
    there is one. -/
def Store.admits (s : Store) (filter : Option Filter) (clause : Option Where.Clause) (e : Entity) :
    Except Where.TestFault Bool :=
  if filter.all (·.admits e) then
    match clause with
    | some c => c.holds (some (s.property e))
    | none => .ok true
  else .ok false

/-- The first element that passes a test, and the others. -/
def takeFirst (test : α → Except ε Bool) : List α → Except ε (Option (α × List α))
  | [] => .ok none
  | x :: rest =>
    match test x with
    | .error f => .error f
    | .ok true => .ok (some (x, rest))
    | .ok false => (takeFirst test rest).map fun
      | some (found, others) => some (found, x :: others)
      | none => none

/-- The last element, and the others. -/
def takeLast (l : List α) : Option (α × List α) := l.getLast?.map fun x => (x, l.dropLast)

/-- Whether an element passes a test; none behind it is tested then. -/
def existsIn (test : α → Except ε Bool) : List α → Except ε Bool
  | [] => .ok false
  | x :: rest =>
    match test x with
    | .error f => .error f
    | .ok true => .ok true
    | .ok false => existsIn test rest

namespace Pools

/-- One entity out of a pool. -/
def take (p : Pools) (s : Store) (domain : Domain) (filter : Option Filter)
    (clause : Option Where.Clause) : Except Where.TestFault (Option (Entity × Pools)) :=
  let taken : Except Where.TestFault (Option (Entity × List Entity)) := match filter, clause with
    | none, none => .ok (takeLast (p.get domain))
    | _, _ => takeFirst (s.admits filter clause) (p.get domain)
  taken.map fun
    | some (e, others) => some (e, p.set domain others)
    | none => none

/-- Those of some kinds of which an entity could be drawn. -/
def available (p : Pools) (s : Store) (domain : Domain) (clause : Option Where.Clause) :
    List Filter → Except Where.TestFault (List Filter)
  | [] => .ok []
  | f :: rest =>
    match existsIn (s.admits (some f) clause) (p.get domain) with
    | .error fault => .error fault
    | .ok there => (available p s domain clause rest).map fun fs => if there then f :: fs else fs

end Pools

end Errand
