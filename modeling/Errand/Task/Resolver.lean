/-
  Errand.Task.Resolver — a sentence with wildcards made into a task.

  Occurrences with the same keycode form a group, which is bound once. Groups
  whose clauses refer to no other group are bound first, in order; then those whose
  references are all bound, again and again until nothing changes. Groups that
  wait for each other stay unbound, with a warning. Pronouns come last and agree
  with the person named nearest before them.

  What is drawn leaves its pool, also when the work ends in a fault later on.
-/

import Errand.Random.Source
import Errand.Log
import Errand.Task.Basic
import Errand.Task.Pool
import Errand.Wildcard.Group

namespace Errand

/-! ## Faults -/

/-- Why a sentence could not be made into a task. -/
inductive TaskFault where
  | marker (f : MarkerFault)
  | clause (f : Where.Fault)
  | test (f : Where.TestFault)
  /-- Metadata refer to an entity that is called by bytes, or one is to be written. -/
  | unwritableName
  /-- No entity left is of the kind and fulfils the clause. -/
  | exhausted (domain : Domain) (filter : Option Filter) (clause : Option Text)
  deriving Repr

namespace TaskFault

/-- Whether a sentence that fails so is one that cannot be fulfilled. Numbers beyond
    all bounds are another matter. -/
def isOrdinary : TaskFault → Bool
  | .marker _ | .exhausted .. => true
  | .clause f => f.reason != .numeralTooLong
  | .test _ | .unwritableName => false

def message : TaskFault → Text
  | .marker f => f.message
  | .clause f => f.message
  | .test _ => "a clause cannot be tested".text
  | .unwritableName => "a name of bytes cannot be written".text
  | .exhausted domain filter condition =>
    "No candidates left for ".text ++ domain.word ++
      (match filter with
        | some f => " (".text ++ f.word ++ ")".text
        | none => []) ++
      (match condition with
        | some c => if c.isEmpty then [] else " where ".text ++ c
        | none => [])

end TaskFault

/-! ## The state of the work -/

/-- What one sentence leaves for the next: the pools, the source of choices, the
    next automatic number and what was noted. -/
structure Resolver (σ : Type) where
  pools : Pools
  source : σ
  next : Int
  log : Log

/-- A step of the work. It may fail; what it changed before stays changed. -/
abbrev Resolving (σ : Type) := ExceptT TaskFault (StateM (Resolver σ))

namespace Resolver

variable {σ : Type} [RandomSource σ]

/-- The pools of a store, shuffled one after the other. -/
def shuffled (p : Pools) (source : σ) : Pools × σ :=
  let (categories, source) := RandomSource.shuffle p.categories source
  let (gestures, source) := RandomSource.shuffle p.gestures source
  let (places, source) := RandomSource.shuffle p.places source
  let (people, source) := RandomSource.shuffle p.people source
  let (objects, source) := RandomSource.shuffle p.objects source
  let (questions, source) := RandomSource.shuffle p.questions source
  (⟨categories, gestures, places, people, objects, questions⟩, source)

/-- The beginning of the work with a store, up to a tier. -/
def start (store : Store) (tier : Tier) (source : σ) (next : Int) : Resolver σ :=
  let (pools, source) := shuffled (Pools.ofStore store tier) source
  ⟨pools, source, next, []⟩

/-! ## Binding a group -/

/-- What a group asks for: nothing to be shown, or an entity. -/
inductive Demand where
  | nothing
  | entity (wish : Wish)

/-- What a group asks for, if it is neither a pronoun nor of an unknown name. -/
def demand? (g : Group) : Option Demand :=
  if g.name = "void".text then some .nothing
  else (Wish.ofName? g.name g.subtype).map .entity

/-- Clauses read one by one and joined. -/
def joinedClause (clauses : List Text) : Except TaskFault (Option Where.Clause) :=
  match clauses.mapM Where.parse with
  | .ok cs => .ok (Where.conjunction cs)
  | .error f => .error (.clause f)

/-- The kind of entity to draw. -/
def chooseFilter (store : Store) (wish : Wish) (clause : Option Where.Clause) :
    Resolving σ (Option Filter) := do
  match wish with
  | .whole _ => return none
  | .only _ f => return some f
  | .drawn domain filters =>
    let r ← get
    match r.pools.available store domain clause filters with
    | .error f => throw (.test f)
    | .ok [] => throw (.exhausted domain none (clause.map (·.text)))
    | .ok (first :: more) =>
      let (f, source) := RandomSource.choice first more r.source
      set { r with source }
      return some f

/-- An entity out of the pool of a domain. -/
def draw (store : Store) (domain : Domain) (filter : Option Filter) (clause : Option Where.Clause) :
    Resolving σ Entity := do
  let r ← get
  match r.pools.take store domain filter clause with
  | .error f => throw (.test f)
  | .ok none => throw (.exhausted domain filter (clause.map (·.text)))
  | .ok (some (e, pools)) =>
    set { r with pools }
    return e

/-- What a demand is bound to under clauses without references. -/
def fulfil (store : Store) (clauses : List Text) : Demand → Resolving σ Shown
  | .nothing => return .standIn .nothing
  | .entity wish => do
    let clause ← ExceptT.mk (pure (joinedClause clauses))
    let filter ← chooseFilter store wish clause
    return .entity (← draw store wish.domain filter clause)

/-! ## Binding all groups -/

/-- What keycodes are bound to. -/
abbrev Bindings := List (Text × Shown)

/-- A group that waits for others, and what it asks for. -/
abbrev Waiting := Group × Demand

/-- A clause with the quoted name of what they are bound to in the place of its
    references, if all are bound. -/
def substitute (bound : Bindings) (clause : Text) : Option Text :=
  (references clause).foldlM (fun t keycode =>
    (bound.lookup keycode).map fun shown =>
      Text.replaceAll (reference keycode) (Where.quote shown.name.display) t) clause

/-- Binds groups that wait for nothing. -/
def bindReady (store : Store) : List Waiting → Bindings → Resolving σ Bindings
  | [], bound => return bound
  | (g, d) :: rest, bound => do
    let shown ← fulfil store g.clauses d
    bindReady store rest (bound ++ [(g.keycode, shown)])

/-- Binds those of the waiting groups whose references are bound by then; the others
    wait on. -/
def bindWaiting (store : Store) : List Waiting → Bindings → Resolving σ (Bindings × List Waiting)
  | [], bound => return (bound, [])
  | (g, d) :: rest, bound => do
    match g.clauses.mapM (substitute bound) with
    | none =>
      let (bound, left) ← bindWaiting store rest bound
      return (bound, (g, d) :: left)
    | some clauses =>
      let shown ← fulfil store clauses d
      bindWaiting store rest (bound ++ [(g.keycode, shown)])

/-- Notes the groups that can never be bound. -/
def warnUnbound (left : List Waiting) : Resolving σ Unit :=
  modify fun r => { r with log := r.log ++ [⟨.warning, "Unresolvable wildcard references: ".text ++
    Text.join ", ".text (left.map (·.1.keycode))⟩] }

/-- Binds waiting groups as long as their number falls; there are at most `most` of
    them. -/
def settle (store : Store) : (most : Nat) → List Waiting → Bindings → Resolving σ Bindings
  | 0, _, bound => return bound
  | most + 1, waiting, bound => do
    if waiting.isEmpty then return bound
    let (bound, left) ← bindWaiting store waiting bound
    if left.length = waiting.length then
      warnUnbound left
      return bound
    else settle store most left bound

/-- The gender of the person that the last of some occurrences is bound to, leaving
    out those bound to no person. -/
def nearestGender (bound : Bindings) (before : List Occurrence) : Option Gender :=
  before.reverse.findSome? fun w => match bound.lookup w.keycode with
    | some (.entity (.person _ p)) => some p.gender
    | _ => none

/-- Whether a group is one of pronouns. -/
def isPronoun (g : Group) : Bool := g.name = "pron".text

/-- The pronoun for a group: objective if its subtype says so. -/
def pronounOf (bound : Bindings) (occurrences : List Occurrence) (g : Group) : Shown :=
  let before := occurrences.takeWhile (·.keycode != g.keycode)
  .standIn (.pronoun (nearestGender bound before)
    ("obj".text.isPrefixOf (g.subtype.getD [])))

/-- Binds all groups that can be bound. -/
def bindAll (store : Store) (groups : List Group) (occurrences : List Occurrence) :
    Resolving σ Bindings := do
  let demands := groups.filterMap fun g => (demand? g).map (g, ·)
  let (waiting, ready) := demands.partition fun (g, _) => !g.references.isEmpty
  let bound ← bindReady store ready []
  let bound ← settle store waiting.length waiting bound
  return bound ++ (groups.filter isPronoun).map fun g =>
    (g.keycode, pronounOf bound occurrences g)

/-! ## The task -/

/-- What is shown for an entity that shall not be named, if there is something. -/
def standInFor? (store : Store) : Entity → Option Shown
  | .room .. => some (.standIn .apartment)
  | .location place l => some (match store.room? (.location place l) with
    | some room => .entity room
    | none => .standIn .somewhere)
  | .object place o => some (match store.category? (.object place o) with
    | some category => .entity category
    | none => .standIn .objects)
  | .person .. => some (.standIn .person)
  | .category .. => some (.standIn .objects)
  | .gesture .. | .question .. => none

/-- The text cut at line breaks and at those written with a backslash. -/
def cutLines : Text → Text × List Text
  | [] => ([], [])
  | .char '\\' :: .char 'n' :: rest => Text.startSegment (cutLines rest)
  | c :: rest =>
    if c = '\r' || c = '\n' then Text.startSegment (cutLines rest)
    else Text.consFirst c (cutLines rest)

/-- What a reference in metadata is shown as: the name of what it is bound to, else
    the wildcard as it is written, else itself. -/
def shownReference (groups : List Group) (bound : Bindings) (keycode : Text) : Text :=
  match bound.lookup keycode, groups.find? (·.keycode == keycode) with
  | some shown, _ => shown.name.display
  | none, some g => g.first.text
  | none, none => reference keycode

/-- The lines of an occurrence's metadata that are not blank. -/
def metadataLines (groups : List Group) (bound : Bindings) (w : Occurrence) : List Text :=
  let (first, more) := cutLines (replaceReferences (shownReference groups bound) (w.metadata.getD []))
  ((first :: more).map Text.trim).filter (!·.isEmpty)

/-- Whether the metadata of an occurrence that is bound refer to an entity called by
    bytes. -/
def namesBytes (bound : Bindings) (w : Occurrence) : Bool :=
  (bound.lookup w.keycode).isSome && (references (w.metadata.getD [])).any fun keycode =>
    (bound.lookup keycode).any fun shown => !shown.name.isText

/-- The token of an occurrence. -/
def tokenOf (store : Store) (groups : List Group) (bound : Bindings) (w : Occurrence) : Token :=
  match bound.lookup w.keycode with
  | none => .literal w.text
  | some shown =>
    let metadata := metadataLines groups bound w
    let plain := Token.replaced w.text shown metadata
    match w.obfuscated, shown with
    | true, .entity e => match standInFor? store e with
      | some standIn =>
        let t := Token.replaced w.text standIn metadata
        { t with metadata := t.metadata ++ [e.name] }
      | none => plain
    | _, _ => plain

/-- A literal token, if it has a text. -/
def literals (t : Text) : List Token := if t.isEmpty then [] else [.literal t]

/-- The tokens of a text that begins `place` characters into a sentence, given the
    occurrences in it. -/
def weave (token : Occurrence → Token) : (place : Nat) → Text → List Occurrence → List Token
  | _, t, [] => literals t
  | place, t, w :: ws =>
    literals (t.take (w.start - place)) ++ token w :: weave token w.stop (t.drop (w.stop - place)) ws

/-- The names of what groups are bound to, in the order of the groups; one that
    shows nothing has none. -/
def assignments (groups : List Group) (bound : Bindings) : List (Text × Name) :=
  (groups.filter (·.name != "void".text)).filterMap fun g =>
    (bound.lookup g.keycode).map fun shown => (g.keycode, shown.name)

/-- The wildcards of a sentence, their numbers taken from those not used yet. -/
def scanned (sentence : Text) : Resolving σ Found := do
  let r ← get
  let (found, next) := (scan sentence).run r.next
  set { r with next }
  match found with
  | .ok f => return f
  | .error f => throw (.marker f)

/-- The task that a sentence becomes. -/
def task (store : Store) (sentence : Text) : Resolving σ Task := do
  let found ← scanned sentence
  let groups := Group.ofOccurrences found.all
  let bound ← bindAll store groups found.all
  if found.direct.any (namesBytes bound) then throw .unwritableName
  return {
    tokens := weave (tokenOf store groups bound) 0 sentence found.direct
    assignments := assignments groups bound
    grammar := [] }

end Resolver

end Errand
