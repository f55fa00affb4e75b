/-
  Errand.Entity.Store — all entities, and how they are added.

  Rooms, categories and objects have one record to a name, locations one to a
  name and a room; small and capital letters do not matter. Adding such a record
  again merges: free properties are written over, a location gains the roles it
  did not have, a category moves to a location that is given, an object takes the
  new kind and tier and moves to a category that is given. People, gestures and
  questions are always added.

  Nothing is ever taken out and no record changes its place, so a place once held
  stays good.

  What is added may be described by values of any kind (`Addition`). A name that is
  neither a text nor bytes is a fault; the related records that were needed first have been added
  by then, and stay.
-/

import Errand.Entity.Record
import Errand.Text.Case

namespace Errand

structure Store where
  rooms : List Room
  locations : List Location
  categories : List Category
  objects : List Object
  people : List Person
  gestures : List Gesture
  questions : List Question

namespace Store

def empty : Store := ⟨[], [], [], [], [], [], []⟩

/-! ## Names -/

/-- The place of the first name that a name is the same as. -/
def placeOf? (names : List Name) (name : Name) : Option Nat :=
  names.findIdx? fun n => n.lower == name.key

/-! ## Additions -/

/-- A room of a name; the place it has. -/
def putRoom (s : Store) (name : Name) (properties : Properties) : Store × Nat :=
  match placeOf? (s.rooms.map (·.name)) name with
  | none => ({ s with rooms := s.rooms ++ [⟨name.trim, properties⟩] }, s.rooms.length)
  | some place =>
    ({ s with rooms := s.rooms.modify place fun r =>
        { r with properties := r.properties.update properties } }, place)

/-- The room that a location is said to be in; a name that is empty says nothing. -/
def putRoomOf (s : Store) : Option Name → Store × Option Nat
  | none => (s, none)
  | some name =>
    if name.isEmpty then (s, none) else let (s, place) := s.putRoom name []; (s, some place)

/-- A location of a name in a room. -/
def putLocation (s : Store) (name : Name) (room : Option Name) (placement beacon : Bool)
    (properties : Properties) : Store × Nat :=
  let (s, room) := s.putRoomOf room
  match s.locations.findIdx? fun l => l.name.lower == name.key && l.room == room with
  | none =>
    ({ s with locations :=
        s.locations ++ [⟨name.trim, room, placement, beacon, properties⟩] }, s.locations.length)
  | some place =>
    ({ s with locations := s.locations.modify place fun l =>
        { l with
          isPlacement := l.isPlacement || placement
          isBeacon := l.isBeacon || beacon
          properties := l.properties.update properties } }, place)

/-- The usual location of a category, where objects can always be put; a name that
    is empty says nothing, not even about the room. -/
def putLocationOf (s : Store) (room : Option Name) : Option Name → Store × Option Nat
  | none => (s, none)
  | some name =>
    if name.isEmpty then (s, none)
    else let (s, place) := s.putLocation name room true false []; (s, some place)

/-- A category of a name. -/
def putCategory (s : Store) (name : Name) (location room : Option Name)
    (properties : Properties) : Store × Nat :=
  let (s, location) := s.putLocationOf room location
  match placeOf? (s.categories.map (·.name)) name with
  | none =>
    ({ s with categories := s.categories ++ [⟨name.trim, location, properties⟩] },
      s.categories.length)
  | some place =>
    ({ s with categories := s.categories.modify place fun c =>
        { c with
          location := location.or c.location
          properties := c.properties.update properties } }, place)

/-- The category of an object; a name that is empty says nothing. -/
def putCategoryOf (s : Store) : Option Name → Store × Option Nat
  | none => (s, none)
  | some name =>
    if name.isEmpty then (s, none)
    else let (s, place) := s.putCategory name none none []; (s, some place)

/-- An object of a name. -/
def putObject (s : Store) (name : Name) (category : Option Name) (kind : ObjectKind) (tier : Tier)
    (properties : Properties) : Store × Nat :=
  let (s, category) := s.putCategoryOf category
  match placeOf? (s.objects.map (·.name)) name with
  | none =>
    ({ s with objects := s.objects ++ [⟨name.trim, kind, tier, category, properties⟩] },
      s.objects.length)
  | some place =>
    ({ s with objects := s.objects.modify place fun o =>
        { o with
          kind := kind
          tier := tier
          category := category.or o.category
          properties := o.properties.update properties } }, place)

def putPerson (s : Store) (name : Name) (gender : Gender) (properties : Properties) : Store × Nat :=
  ({ s with people := s.people ++ [⟨name.trim, gender, properties⟩] }, s.people.length)

def putGesture (s : Store) (name : Name) (tier : Tier) (properties : Properties) : Store × Nat :=
  ({ s with gestures := s.gestures ++ [⟨name.trim, tier, properties⟩] }, s.gestures.length)

/-- A question; its words and its answer are kept as they are. -/
def putQuestion (s : Store) (question answer : Value) (tier : Tier) (properties : Properties) :
    Store × Nat :=
  ({ s with questions := s.questions ++ [⟨question, answer, tier, properties⟩] },
    s.questions.length)

end Store

/-! ## Additions -/

/-- The kind of object that a value names; one not recognised is known. -/
def Object.kindOf (v : Value) : ObjectKind := (ObjectKind.ofValue? v).getD .known

/-- The tier that a value gives to an object of a kind: no tier means that of the
    kind, and a tier not recognised is unknown. -/
def Object.tierOf (kind : ObjectKind) : Value → Tier
  | .null => kind.defaultTier
  | v => (Tier.ofValue? v).getD .unknown

/-- The tier that a value gives to a gesture or a question: easy unless it says
    otherwise. -/
def lightTier (v : Value) : Tier := (Tier.ofValue? v).getD .easy

/-- The gender that a value gives to a person: female unless it says otherwise. -/
def Person.genderOf (v : Value) : Gender := (Gender.ofValue? v).getD .female

/-- One thing to add to a store, as it is described. Names must be texts or bytes;
    what is related is named or left empty; an unknown kind, tier or gender is
    replaced by a usual one. -/
inductive Addition where
  | room (name : Value) (properties : Properties)
  | location (name room : Value) (placement beacon : Bool) (properties : Properties)
  | category (name location room : Value) (properties : Properties)
  | object (name category kind tier : Value) (properties : Properties)
  | person (name gender : Value) (properties : Properties)
  | gesture (name tier : Value) (properties : Properties)
  | question (question answer tier : Value) (properties : Properties)

/-- Why something could not be added. -/
inductive AddFault where
  | noName
  deriving DecidableEq, Repr

/-- A name: a text or bytes. -/
def Value.asName : Value → Except AddFault Name
  | .scalar (.text t) => .ok (.text t)
  | .scalar (.bytes bs) => .ok (.bytes bs)
  | _ => .error .noName

/-- The name of something related, if one is given. -/
def Value.asRelated (v : Value) : Except AddFault (Option Name) :=
  if v.isEmpty then .ok none else v.asName.map some

namespace Store

/-- A store with one more record of a name, which is added when the name is one;
    else the store is left as it was before. -/
def addNamed (before : Store) (name : Value) (put : Name → Store × Nat) :
    Store × Except AddFault Nat :=
  match name.asName with
  | .ok name => let (s, place) := put name; (s, .ok place)
  | .error f => (before, .error f)

/-- Adds a location. Its room comes first. -/
def addLocation (s : Store) (name room : Value) (placement beacon : Bool)
    (properties : Properties) : Store × Except AddFault Nat :=
  match room.asRelated with
  | .error f => (s, .error f)
  | .ok room =>
    addNamed (s.putRoomOf room).1 name fun name => s.putLocation name room placement beacon properties

/-- Adds a category. Its usual location comes first, and the room of that before; a
    room without a location says nothing. -/
def addCategory (s : Store) (name location room : Value) (properties : Properties) :
    Store × Except AddFault Nat :=
  if location.isEmpty then addNamed s name fun name => s.putCategory name none none properties
  else match room.asRelated, location.asName with
    | .error f, _ => (s, .error f)
    | .ok room, .error f => ((s.putRoomOf room).1, .error f)
    | .ok room, .ok location =>
      addNamed (s.putLocationOf room (some location)).1 name fun name =>
        s.putCategory name (some location) room properties

/-- Adds an object. Its category comes first. -/
def addObject (s : Store) (name category kind tier : Value) (properties : Properties) :
    Store × Except AddFault Nat :=
  match category.asRelated with
  | .error f => (s, .error f)
  | .ok category =>
    let kind := Object.kindOf kind
    addNamed (s.putCategoryOf category).1 name fun name =>
      s.putObject name category kind (Object.tierOf kind tier) properties

/-- Adds one thing; the place it has among those of its kind, or why it could not be
    added. -/
def add (s : Store) : Addition → Store × Except AddFault Nat
  | .room name properties => addNamed s name fun name => s.putRoom name properties
  | .location name room placement beacon properties =>
    s.addLocation name room placement beacon properties
  | .category name location room properties => s.addCategory name location room properties
  | .object name category kind tier properties => s.addObject name category kind tier properties
  | .person name gender properties =>
    addNamed s name fun name => s.putPerson name (Person.genderOf gender) properties
  | .gesture name tier properties =>
    addNamed s name fun name => s.putGesture name (lightTier tier) properties
  | .question question answer tier properties =>
    let (s, place) := s.putQuestion question answer (lightTier tier) properties
    (s, .ok place)

/-- Adds things in order, up to the first that cannot be added. -/
def addAll (s : Store) : List Addition → Store × Option AddFault
  | [] => (s, none)
  | a :: rest =>
    match s.add a with
    | (s, .ok _) => s.addAll rest
    | (s, .error f) => (s, some f)

/-! ## What a store holds -/

/-- The entities of one kind, each with its place. -/
def entitiesOf (make : Nat → α → Entity) (records : List α) : List Entity :=
  records.mapIdx make

def roomEntities (s : Store) : List Entity := entitiesOf .room s.rooms
def locationEntities (s : Store) : List Entity := entitiesOf .location s.locations
def categoryEntities (s : Store) : List Entity := entitiesOf .category s.categories
def objectEntities (s : Store) : List Entity := entitiesOf .object s.objects
def personEntities (s : Store) : List Entity := entitiesOf .person s.people
def gestureEntities (s : Store) : List Entity := entitiesOf .gesture s.gestures
def questionEntities (s : Store) : List Entity := entitiesOf .question s.questions

/-- Everywhere one can go: the rooms, then the locations. -/
def places (s : Store) : List Entity := s.roomEntities ++ s.locationEntities

/-- A summary of a store in numbers. -/
def summary (s : Store) : Text :=
  let count (label : String) (n : Nat) : Text := label.text ++ "=".text ++ decimal n
  "EntityStore(".text ++ Text.join ", ".text
    [count "rooms" s.rooms.length, count "locations" s.locations.length,
      count "categories" s.categories.length, count "objects" s.objects.length,
      count "names" s.people.length, count "gestures" s.gestures.length,
      count "questions" s.questions.length] ++ ")".text

/-! ## Relations -/

/-- The room of an entity: of a room itself, of a location the one it is in. -/
def room? (s : Store) : Entity → Option Entity
  | .room place r => some (.room place r)
  | .location _ l => l.room.bind fun place => s.rooms[place]?.map (Entity.room place)
  | _ => none

/-- The category of an object. -/
def category? (s : Store) : Entity → Option Entity
  | .object _ o => o.category.bind fun place => s.categories[place]?.map (Entity.category place)
  | _ => none

/-- The usual location of a category. -/
def categoryLocation? (s : Store) : Entity → Option Entity
  | .category _ c => c.location.bind fun place => s.locations[place]?.map (Entity.location place)
  | _ => none

/-- The usual location of a category, or of the category of an object. -/
def usualLocation? (s : Store) : Entity → Option Entity
  | .object place o => (s.category? (.object place o)).bind s.categoryLocation?
  | e => s.categoryLocation? e

/-- The name of the related entity for a property that names a relation. A room
    has no room beyond itself. -/
def relatedName? (s : Store) (e : Entity) (name : Text) : Option Name :=
  if name = "room".text then
    match e with
    | .room .. => none
    | e => (s.room? e).map (·.name)
  else if name = "category".text then (s.category? e).map (·.name)
  else if name = "location".text then (s.usualLocation? e).map (·.name)
  else none

/-- What clauses find under the name of a property: the related entity's name if
    there is one, else what the entity itself has. -/
def property (s : Store) (e : Entity) (name : Text) : Property :=
  match s.relatedName? e name with
  | some related => .value related.value
  | none => e.property name

end Store

end Errand
