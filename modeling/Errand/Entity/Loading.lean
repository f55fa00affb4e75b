/-
  Errand.Entity.Loading — from entity data to additions.

  The data is a mapping with up to seven sections, each a list whose entries are
  a bare name or a mapping. What an entry has beyond the fields of its kind
  becomes free properties. Reading the data gives the additions in order, and the
  fault at which the reading stopped, if it did: the store keeps what was added
  before (`load`).
-/

import Errand.Entity.Store
import Errand.Files.Disk
import Errand.Yaml.Fault

namespace Errand

/-! ## Faults -/

/-- Why entity data could not be loaded to the end. A value at fault is given as
    messages show it. -/
inductive LoadFault where
  | notMapping (kind : Text)
  | notList (part kind : Text)
  | locationsNotList (room : Text)
  | objectsNotList (category : Text)
  | nameless (part key entry : Text)
  | unexpectedEntry (part entry : Text)
  /-- The text stands for no data. -/
  | unreadText (f : Yaml.Fault)
  | unreadable (path reason : Text)
  | unadded (f : AddFault)
  /-- An integer to be written has more digits than any may have. -/
  | numeralTooLong
  /-- A file is no text, or a path cannot be one. -/
  | disk (f : DiskFault)
  deriving Repr

def LoadFault.message : LoadFault → Text
  | .notMapping kind => "Entity data must be a mapping, got ".text ++ kind
  | .notList part kind => "'".text ++ part ++ "' must be a list, got ".text ++ kind
  | .locationsNotList room => "'locations' of room ".text ++ Text.shown room ++ " must be a list".text
  | .objectsNotList category =>
    "'objects' of category ".text ++ Text.shown category ++ " must be a list".text
  | .nameless part key entry => "Entry in '".text ++ part ++ "' has no '".text ++ key ++
      "': ".text ++ entry
  | .unexpectedEntry part entry => "Unexpected entry in '".text ++ part ++ "': ".text ++ entry
  | .unreadText _ => "Invalid entity YAML:".text
  | .unreadable path reason => "Cannot read entity file ".text ++ path ++ ": ".text ++ reason
  | .unadded .noName => "a name is neither a text nor bytes".text
  | .numeralTooLong => "an integer is too long".text
  | .disk f => f.message []

/-- A fault that shows a value, unless the value cannot be shown. -/
def LoadFault.about (v : Value) (fault : Text → LoadFault) : LoadFault :=
  match v.shown? with
  | some t => fault t
  | none => .numeralTooLong

/-! ## Plans -/

/-- What a reading of data comes to: additions, and the fault that ended it. -/
structure Plan where
  additions : List Addition
  fault : Option LoadFault

namespace Plan

def done : Plan := ⟨[], none⟩

def failed (f : LoadFault) : Plan := ⟨[], some f⟩

def one (a : Addition) : Plan := ⟨[a], none⟩

/-- One plan after another; a fault ends the whole. -/
def andThen (p q : Plan) : Plan :=
  match p.fault with
  | some f => ⟨p.additions, some f⟩
  | none => ⟨p.additions ++ q.additions, q.fault⟩

/-- Plans one after the other. -/
def inOrder : List Plan → Plan
  | [] => done
  | p :: rest => p.andThen (inOrder rest)

/-- The plan of a value that may not have been readable. -/
def ofExcept (r : Except LoadFault α) (f : α → Plan) : Plan :=
  match r with
  | .ok a => f a
  | .error e => failed e

end Plan

/-! ## Entries -/

namespace Loading

/-- The entries of a mapping value. -/
abbrev Entries := List (Scalar × Value)

/-- A list under a key; nothing and anything empty count as no entries. -/
def listUnder (data : Entries) (key : Text) (fault : Text → LoadFault) :
    Except LoadFault (List Value) :=
  match (Value.lookup? key data).map Value.opened with
  | none => .ok []
  | some (.list items) => .ok items
  | some v => if v.isEmpty then .ok [] else .error (fault v.kindName)

/-- A list entry as a mapping with a name: a bare text is the name. -/
def entry (part nameKey : Text) (item : Value) : Except LoadFault Entries :=
  match item.opened with
  | .text t => .ok [(.text nameKey, .text t)]
  | .map entries =>
    if ((Value.lookup? nameKey entries).map Value.isEmpty).getD true then
      .error (.about item (.nameless part nameKey))
    else .ok entries
  | _ => .error (.about item (.unexpectedEntry part))

/-- The text that something is written as, if it can be written. -/
def written (t : Option Text) : Except LoadFault Text :=
  match t with
  | some t => .ok t
  | none => .error .numeralTooLong

/-- What an entry has beyond the given fields. -/
def extras (fields : List Text) (e : Entries) : Except LoadFault Properties :=
  let isExtra (entry : Scalar × Value) : Bool := match entry.1 with
    | .text t => !fields.contains t
    | _ => true
  (e.filter isExtra).foldlM (fun acc (k, v) => do return Properties.insert (← written k.display?) v acc) []

/-- What an entry has under a key, else a value instead. -/
def field (key : Text) (instead : Value) (e : Entries) : Value := (Value.lookup? key e).getD instead

/-- The name of an entry, as a text. -/
def nameOf (nameKey : Text) (e : Entries) : Except LoadFault Text :=
  written (field nameKey .null e).display?

/-- Whether a field is given and not empty. -/
def isSet (key : Text) (e : Entries) : Bool :=
  ((Value.lookup? key e).map fun v => !v.isEmpty).getD false

/-- The tier under one of its two names, else a value instead. -/
def tierField (instead : Value) (e : Entries) : Value :=
  ((Value.lookup? "tier".text e).or (Value.lookup? "difficulty".text e)).getD instead

/-- The fields of an entry: its name, and what it has beyond its other fields. -/
structure Fields where
  name : Text
  extras : Properties
  entries : Entries

/-- An entry of a part of the data, which has a name under `nameKey` and other
    fields. -/
def fields (part nameKey : String) (others : List String) (item : Value) :
    Except LoadFault Fields := do
  let e ← entry part.text nameKey.text item
  let properties ← extras ((nameKey :: others).map String.text) e
  return ⟨← nameOf nameKey.text e, properties, e⟩

/-- The plan of an entry, from its fields. -/
def planOf (part nameKey : String) (others : List String) (item : Value) (f : Fields → Plan) : Plan :=
  .ofExcept (fields part nameKey others item) f

/-! ## Sections -/

/-- Locations, in a room unless an entry says otherwise. -/
def locations (items : List Value) (room : Value) : Plan :=
  .inOrder (items.map fun item =>
    planOf "locations" "name" ["room", "placement", "beacon"] item fun e =>
      .one (.location (.text e.name) (field "room".text room e.entries)
        (isSet "placement".text e.entries) (isSet "beacon".text e.entries) e.extras))

/-- A room and the locations listed in it. -/
def room (item : Value) : Plan :=
  planOf "rooms" "name" ["locations"] item fun e =>
    .andThen (.one (.room (.text e.name) e.extras))
      (.ofExcept (listUnder e.entries "locations".text fun _ => .locationsNotList e.name) fun items =>
        locations items (.text e.name))

/-- An object of a category, from its fields. -/
def object (category : Value) (e : Fields) : Plan :=
  .one (.object (.text e.name) category (field "type".text (.text "known".text) e.entries)
    (tierField .null e.entries) e.extras)

/-- A category and the objects listed in it. -/
def category (item : Value) : Plan :=
  planOf "categories" "name" ["location", "room", "objects"] item fun e =>
    .andThen (.one (.category (.text e.name) (field "location".text .null e.entries)
        (field "room".text .null e.entries) e.extras))
      (.ofExcept (listUnder e.entries "objects".text fun _ => .objectsNotList e.name) fun items =>
        .inOrder (items.map fun item =>
          planOf "objects" "name" ["type", "tier", "difficulty"] item (object (.text e.name))))

/-- An object that may name its category. -/
def objectAlone (item : Value) : Plan :=
  planOf "objects" "name" ["category", "type", "tier", "difficulty"] item fun e =>
    object (field "category".text .null e.entries) e

def person (item : Value) : Plan :=
  planOf "names" "name" ["gender"] item fun e =>
    .one (.person (.text e.name) (field "gender".text (.text "female".text) e.entries) e.extras)

def gesture (item : Value) : Plan :=
  planOf "gestures" "name" ["tier", "difficulty"] item fun e =>
    .one (.gesture (.text e.name) (tierField (.text "easy".text) e.entries) e.extras)

/-- The answer of a question that gives none. -/
def openAnswer : Text := "[varies]".text

def question (item : Value) : Plan :=
  planOf "questions" "question" ["answer", "tier", "difficulty"] item fun e =>
    .ofExcept (written (field "answer".text (.text openAnswer) e.entries).display?) fun answer =>
      .one (.question (.text e.name) (.text answer) (tierField (.text "easy".text) e.entries) e.extras)

/-- The entries of one section of the data, in order. -/
def sectionPlan (data : Entries) (key : String) (f : Value → Plan) : Plan :=
  .ofExcept (listUnder data key.text (.notList key.text)) fun items => .inOrder (items.map f)

/-- The plan of entity data. Empty data of any kind adds nothing. -/
def plan (data : Value) : Plan :=
  if data.isEmpty then .done
  else match data.opened with
    | .map entries =>
      .inOrder
        [sectionPlan entries "rooms" room,
          sectionPlan entries "locations" fun item => locations [item] .null,
          sectionPlan entries "categories" category,
          sectionPlan entries "objects" objectAlone,
          sectionPlan entries "names" person,
          sectionPlan entries "gestures" gesture,
          sectionPlan entries "questions" question]
    | v => .failed (.notMapping v.kindName)

end Loading

/-- Adds what data describes; a fault leaves what was added before it. -/
def Store.load (s : Store) (data : Value) : Store × Option LoadFault :=
  let plan := Loading.plan data
  match s.addAll plan.additions with
  | (s, some f) => (s, some (.unadded f))
  | (s, none) => (s, plan.fault)

end Errand
