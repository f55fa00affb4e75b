/-
  Errand.Yaml.Document — the nodes of a data text.

  A node is a scalar, a sequence or a mapping, and known by its number; one that is
  left out where a node may stand is the empty plain scalar. A name given to a node
  refers to it from then on, even inside itself, and no name is given twice. A text
  is a single document.
-/

import Errand.Yaml.Plain
import Errand.Yaml.Token

namespace Errand.Yaml

/-! ## Nodes -/

/-- What a node is made of; other nodes stand for themselves by their numbers. -/
inductive Content where
  | scalar (text : Text)
  | sequence (items : List Nat)
  | mapping (pairs : List (Nat × Nat))
  deriving Repr, Inhabited

structure Node where
  tag : Tag
  content : Content
  deriving Repr, Inhabited

structure Document where
  nodes : Array Node
  root : Nat
  deriving Repr

namespace Document

def tag (d : Document) (n : Nat) : Tag := (d.nodes[n]?.map (·.tag)).getD .unknown

def content (d : Document) (n : Nat) : Content := (d.nodes[n]?.map (·.content)).getD (.scalar [])

/-- The pairs of a mapping; any other node has none. -/
def pairs (d : Document) (n : Nat) : List (Nat × Nat) :=
  match d.content n with
  | .mapping pairs => pairs
  | _ => []

def setTag (d : Document) (n : Nat) (tag : Tag) : Document :=
  { d with nodes := d.nodes.modify n fun node => { node with tag := tag } }

def setContent (d : Document) (n : Nat) (content : Content) : Document :=
  { d with nodes := d.nodes.modify n fun node => { node with content := content } }

end Document

/-! ## Reading -/

/-- Tokens still to read, the nodes so far, their names, and what the handles of tags
    stand for. -/
structure Draft where
  tokens : List Token
  nodes : Array Node
  names : List (Text × Nat)
  handles : List (Text × Text)

/-- A step that reads on and adds to the draft. -/
abbrev Drafting := StateT Draft (Except Fault)

namespace Drafting

def fail : Drafting α := throw .malformed

/-- The next token, if there is one. -/
def next? : Drafting (Option Token) := do
  match (← get).tokens with
  | .broken f :: _ => throw f
  | t :: _ => return some t
  | [] => return none

def drop : Drafting Unit := modify fun s => { s with tokens := s.tokens.drop 1 }

/-- Whether one of the given tokens comes next. -/
def nextIs (ts : List Token) : Drafting Bool := return (← next?).any ts.contains

/-- A new node; its number. -/
def add (tag : Tag) (content : Content) : Drafting Nat := do
  let s ← get
  set { s with nodes := s.nodes.push ⟨tag, content⟩ }
  return s.nodes.size

/-! ### What stands in front of a node -/

/-- A name, and a tag in full. -/
structure Properties where
  name : Option Text
  tag : Option Text

/-- The full name of a tag whose handle, if it has one, stands for something. -/
def fullTag (handle : Option Text) (suffix : Text) : Drafting Text := do
  match handle with
  | none => return suffix
  | some handle => match (← get).handles.lookup handle with
    | some start => return start ++ suffix
    | none => fail

/-- A name and a tag, in either order. -/
def properties : Drafting Properties := do
  match ← next? with
  | some (.anchor name) => do
    drop
    match ← next? with
    | some (.tag handle suffix) => drop; return ⟨some name, some (← fullTag handle suffix)⟩
    | _ => return ⟨some name, none⟩
  | some (.tag handle suffix) => do
    drop
    match ← next? with
    | some (.anchor name) => drop; return ⟨some name, some (← fullTag handle suffix)⟩
    | _ => return ⟨none, some (← fullTag handle suffix)⟩
  | _ => return ⟨none, none⟩

/-- Refers to a node by its name, if it has one; no name is given twice. -/
def setName (name : Option Text) (n : Nat) : Drafting Unit := do
  match name with
  | none => return
  | some name =>
    if ((← get).names.lookup name).isSome then fail
    else modify fun s => { s with names := (name, n) :: s.names }

/-- The node of a name. -/
def named (name : Text) : Drafting Nat := do
  match (← get).names.lookup name with
  | some n => return n
  | none => fail

/-! ### Nodes -/

/-- Whether the brackets that end with `last` are over; if not, the comma between two
    entries is passed. -/
def endsFlow (last : Token) (isFirst : Bool) : Drafting Bool := do
  if ← nextIs [last] then
    drop
    return true
  else
    if !isFirst then
      if ← nextIs [.flowEntry] then drop else fail
    if ← nextIs [last] then
      drop
      return true
    else return false

/-- The kind that a node is of: the one its tag names, or else `implicit`. -/
def kindOf (tag : Option Text) (implicit : Tag) : Tag :=
  match tag with
  | none => implicit
  | some name => if name = "!".text then implicit else .ofName name

/-- A scalar. One in quotes is a text, unless its tag leaves that to its letters. -/
def scalar (p : Properties) (text : Text) (isPlain : Bool) : Drafting Nat := do
  let implicit := if isPlain || p.tag.isSome then Tag.ofPlain text else .text
  let n ← add (kindOf p.tag implicit) (.scalar text)
  setName p.name n
  return n

/-- The node that stands where none is written. -/
def absent : Drafting Nat := scalar ⟨none, none⟩ [] true

/-- A name or a tag may stand alone. -/
def bare (p : Properties) : Drafting Nat :=
  if p.name.isSome || p.tag.isSome then scalar p [] true else fail

/-- A collection; inside it one can refer to it. -/
def collection (p : Properties) (kind : Tag) (inside : Drafting Content) : Drafting Nat := do
  let n ← add (kindOf p.tag kind) default
  setName p.name n
  let content ← inside
  modify fun s => { s with nodes := s.nodes.modify n fun node => { node with content := content } }
  return n

def sequence (p : Properties) (items : Drafting (List Nat)) : Drafting Nat :=
  collection p .sequence (return .sequence (← items))

def mapping (p : Properties) (pairs : Drafting (List (Nat × Nat))) : Drafting Nat :=
  collection p .mapping (return .mapping (← pairs))

mutual

/-- A node; block collections only where `block` says so, and a sequence without
    its own indentation only where `flush` does. -/
def node (block flush : Bool) : Nat → Drafting Nat
  | 0 => fail
  | fuel + 1 => do
    match ← next? with
    | some (.reference name) => do
      drop
      named name
    | _ => do
      let p ← properties
      match ← next?, block, flush with
      | some (.scalar text isPlain), _, _ => do
        drop
        scalar p text isPlain
      | some .flowSequence, _, _ => do
        drop
        sequence p (flowItems fuel [])
      | some .flowMapping, _, _ => do
        drop
        mapping p (flowPairs fuel [])
      | some .blockEntry, _, true => sequence p (flushItems fuel [])
      | some .blockSequence, true, _ => do
        drop
        sequence p (blockItems fuel [])
      | some .blockMapping, true, _ => do
        drop
        mapping p (blockPairs fuel [])
      | _, _, _ => bare p

/-- A node, or the absent one before any of the tokens `ends`. -/
def nodeOr (block flush : Bool) (ends : List Token) : Nat → Drafting Nat
  | 0 => fail
  | fuel + 1 => do if ← nextIs ends then absent else node block flush fuel

/-- The items of a block sequence. -/
def blockItems : Nat → List Nat → Drafting (List Nat)
  | 0, _ => fail
  | fuel + 1, found => do
    if ← nextIs [.blockEntry] then
      drop
      let item ← nodeOr true false [.blockEntry, .blockEnd] fuel
      blockItems fuel (found ++ [item])
    else if ← nextIs [.blockEnd] then
      drop
      return found
    else fail

/-- The items of a sequence that stands at the column of its mapping. -/
def flushItems : Nat → List Nat → Drafting (List Nat)
  | 0, _ => fail
  | fuel + 1, found => do
    if ← nextIs [.blockEntry] then
      drop
      let item ← nodeOr true false [.blockEntry, .key, .value, .blockEnd] fuel
      flushItems fuel (found ++ [item])
    else return found

/-- The pairs of a block mapping; a key or a value may be absent. -/
def blockPairs : Nat → List (Nat × Nat) → Drafting (List (Nat × Nat))
  | 0, _ => fail
  | fuel + 1, found => do
    if ← nextIs [.key] then
      drop
      let key ← nodeOr true true [.key, .value, .blockEnd] fuel
      let value ← valueOr true [.key, .value, .blockEnd] fuel
      blockPairs fuel (found ++ [(key, value)])
    else if ← nextIs [.blockEnd] then
      drop
      return found
    else fail

/-- The value behind a colon; absent without one. -/
def valueOr (block : Bool) (ends : List Token) : Nat → Drafting Nat
  | 0 => fail
  | fuel + 1 => do
    if ← nextIs [.value] then
      drop
      nodeOr block block ends fuel
    else absent

/-- A pair between brackets that end with `last`. -/
def flowPair (last : Token) : Nat → Drafting (Nat × Nat)
  | 0 => fail
  | fuel + 1 => do
    let key ← nodeOr false false [.value, .flowEntry, last] fuel
    return (key, ← valueOr false [.flowEntry, last] fuel)

/-- The items of a flow sequence; a pair among them is a mapping of its own. -/
def flowItems : Nat → List Nat → Drafting (List Nat)
  | 0, _ => fail
  | fuel + 1, found => do
    if ← endsFlow .flowSequenceEnd found.isEmpty then return found
    else if ← nextIs [.key] then
      drop
      let item ← mapping ⟨none, none⟩ (return [← flowPair .flowSequenceEnd fuel])
      flowItems fuel (found ++ [item])
    else
      let item ← node false false fuel
      flowItems fuel (found ++ [item])

/-- The pairs of a flow mapping. -/
def flowPairs : Nat → List (Nat × Nat) → Drafting (List (Nat × Nat))
  | 0, _ => fail
  | fuel + 1, found => do
    if ← endsFlow .flowMappingEnd found.isEmpty then return found
    else if ← nextIs [.key] then
      drop
      let pair ← flowPair .flowMappingEnd fuel
      flowPairs fuel (found ++ [pair])
    else
      let key ← node false false fuel
      let value ← absent
      flowPairs fuel (found ++ [(key, value)])

end

/-! ### Documents -/

/-- Directives: what they define, and the tokens behind them. The version is asked
    for once at most, and a handle defined once. -/
def directives : (versioned : Bool) → List (Text × Text) → List Token →
    Except Fault (List (Text × Text) × List Token)
  | versioned, handles, .directive .version :: rest =>
    if versioned then .error .malformed else directives true handles rest
  | versioned, handles, .directive (.handle name start) :: rest =>
    if (handles.lookup name).isSome then .error .malformed
    else directives versioned ((name, start) :: handles) rest
  | versioned, handles, .directive .other :: rest => directives versioned handles rest
  | _, _, .broken f :: _ => .error f
  | _, handles, tokens => .ok (handles, tokens)

/-- Directives and the mark that starts a document. -/
def head : Drafting Unit := do
  let (handles, tokens) ← directives false [] (← get).tokens
  modify fun s => { s with handles := handles ++ Tag.handles, tokens := tokens }
  if ← nextIs [.documentStart] then drop else fail

/-- The content of a document behind the mark that starts it. -/
def contentOr (fuel : Nat) : Drafting Nat := do
  match ← next? with
  | none | some (.directive _) | some .documentStart | some .documentEnd => absent
  | _ => node true false fuel

/-- The root of a document, if there is one. -/
def root? (fuel : Nat) : Drafting (Option Nat) := do
  match ← next? with
  | none => return none
  | some (.directive _) | some .documentStart => do
    head
    return some (← contentOr fuel)
  | _ => return some (← node true false fuel)

/-- Marks of an end, behind which no second document may start. -/
def finish : Drafting Unit := do
  modify fun s => { s with tokens := s.tokens.dropWhile (· == .documentEnd) }
  match ← next? with
  | none => return
  | _ => do
    head
    fail

end Drafting

/-- The document of a text, if there is one. -/
def Document.ofTokens (tokens : List Token) : Except Fault (Option Document) := do
  let drafting : Drafting (Option Nat) := do
    let root ← Drafting.root? (4 * tokens.length + 4)
    if root.isSome then Drafting.finish
    return root
  let (root, draft) ← drafting ⟨tokens, #[], [], Tag.handles⟩
  return root.map fun root => ⟨draft.nodes, root⟩

end Errand.Yaml
