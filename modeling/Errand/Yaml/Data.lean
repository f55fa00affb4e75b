/-
  Errand.Yaml.Data — the value that a data text stands for.

  The nodes of a document are read one after the other, beginning with its root: a
  scalar when it is met, the inside of a collection when all that was met before
  has been read. The first fault in that order is the fault of the text.

  In a mapping the last value of a key counts, and a key is no collection. What is
  to be a scalar may be a mapping with the scalar under a key of standing in.
-/

import Errand.Yaml.Leaf
import Errand.Yaml.Merge
import Errand.Value

namespace Errand.Yaml

/-- The collection of a kind before it has been read, without any members. -/
def emptyOf? : Tag → Option GraphNode
  | .sequence => some (.list [])
  | .mapping => some (.map [])
  | .set => some (.set [])
  | .pairs => some (.pairs [])
  | _ => none

/-- A document, what is known of its nodes, and the collections that wait to be read. -/
structure Assembly where
  document : Document
  parts : Array (Option GraphNode)
  waiting : List Nat

namespace Assembly

def start (d : Document) : Assembly := ⟨d, Array.replicate d.nodes.size none, []⟩

def part? (a : Assembly) (n : Nat) : Option GraphNode := (a.parts[n]?).join

def setPart (a : Assembly) (n : Nat) (p : GraphNode) : Assembly :=
  { a with parts := a.parts.setIfInBounds n (some p) }

/-! ## Scalars -/

/-- The text of a scalar, or of the one that a mapping has under a key of standing
    in. -/
def scalarText (d : Document) : Nat → Nat → Except Fault Text
  | 0, _ => .error .endless
  | fuel + 1, n =>
    match d.content n with
    | .scalar t => .ok t
    | .sequence _ => .error .malformed
    | .mapping pairs =>
      match pairs.find? fun (key, _) => d.tag key == .standIn with
      | some (_, value) => scalarText d fuel value
      | none => .error .malformed

/-- The scalar that a node of a kind of scalars stands for. -/
def leaf (d : Document) (n : Nat) : Except Fault Scalar := do
  let t ← scalarText d (d.nodes.size + 1) n
  match d.tag n, d.content n with
  | .moment, .mapping _ => .error .mappingAsMoment
  | tag, _ => (Leaf.scalar? tag t).getD (.error .malformed)

/-- Whether a node is the usual word for what is not a number. -/
def isUsualNan (d : Document) (n : Nat) : Bool :=
  match scalarText d (d.nodes.size + 1) n with
  | .ok t => Leaf.isUsualNan t
  | .error _ => false

/-! ## Reading -/

/-- Meets a node: a scalar is read, a collection waits. -/
def meet (n : Nat) (a : Assembly) : Except Fault Assembly :=
  if (a.part? n).isSome then .ok a
  else match emptyOf? (a.document.tag n) with
    | some p => .ok { a.setPart n p with waiting := a.waiting ++ [n] }
    | none => (leaf a.document n).map fun s => a.setPart n (.scalar s)

def meetAll (ns : List Nat) (a : Assembly) : Except Fault Assembly := ns.foldlM (fun a n => meet n a) a

/-- Reads a sequence. -/
def readSequence (n : Nat) (a : Assembly) : Except Fault Assembly :=
  match a.document.content n with
  | .sequence items => do return (← a.meetAll items).setPart n (.list items)
  | _ => .error .malformed

/-- Reads a sequence of mappings of one pair each. -/
def readPairs (n : Nat) (a : Assembly) : Except Fault Assembly := do
  let step (acc : Assembly × List (Nat × Nat)) (item : Nat) :
      Except Fault (Assembly × List (Nat × Nat)) :=
    match acc.1.document.content item with
    | .mapping [(key, value)] => do return (← acc.1.meetAll [key, value], acc.2 ++ [(key, value)])
    | _ => .error .malformed
  match a.document.content n with
  | .sequence items =>
    let (a, pairs) ← items.foldlM step (a, [])
    return a.setPart n (.pairs pairs)
  | _ => .error .malformed

/-- A key with the node it was read from. -/
abbrev Key := Scalar × Nat

/-- Whether two keys are one and the same. What is not a number is the same key only
    where it comes from the same node or from two with the usual word for it. -/
def sameKey (d : Document) (a b : Key) : Bool :=
  a.1.same b.1 &&
    (a.1 != .real .nan || a.2 == b.2 || (isUsualNan d a.2 && isUsualNan d b.2))

/-- A key gets something: in its place if it is there, else at the end. -/
def insertEntry (d : Document) (key : Key) (value : Nat) : List (Key × Nat) → List (Key × Nat)
  | [] => [(key, value)]
  | (k, v) :: rest =>
    if sameKey d k key then (k, value) :: rest else (k, v) :: insertEntry d key value rest

/-- The entries of a mapping. -/
def entries (n : Nat) (a : Assembly) : Except Fault (Assembly × List (Scalar × Nat)) := do
  let step (acc : Assembly × List (Key × Nat)) (pair : Nat × Nat) :
      Except Fault (Assembly × List (Key × Nat)) := do
    let a ← meet pair.1 acc.1
    match a.part? pair.1 with
    | some (.scalar key) =>
      return (← meet pair.2 a, insertEntry a.document (key, pair.1) pair.2 acc.2)
    | _ => .error .malformed
  match a.document.content n with
  | .mapping _ =>
    let d ← a.document.merge n
    let (a, found) ← (d.pairs n).foldlM step ({ a with document := d }, [])
    return (a, found.map fun (key, value) => (key.1, value))
  | _ => .error .malformed

/-- Reads a collection that was met. -/
def readCollection (n : Nat) (a : Assembly) : Except Fault Assembly := do
  match a.document.tag n with
  | .sequence => readSequence n a
  | .pairs => readPairs n a
  | .set => let (a, found) ← entries n a; return a.setPart n (.set (found.map (·.1)))
  | _ => let (a, found) ← entries n a; return a.setPart n (.map found)

/-- Reads all collections that wait, in the order in which they were met. -/
def readAll : Nat → Assembly → Except Fault Assembly
  | 0, a => .ok a
  | fuel + 1, a =>
    match a.waiting with
    | [] => .ok a
    | n :: rest => do readAll fuel (← readCollection n { a with waiting := rest })

/-! ## The whole -/

/-- The graph of all that was read. -/
def graph (a : Assembly) : Graph := a.parts.map (·.getD (.scalar .null))

end Assembly

/-- The value of a document. -/
def Document.value (d : Document) : Except Fault Value := do
  let a ← (Assembly.start d).meet d.root
  let a ← a.readAll (d.nodes.size + 1)
  return .ofNode a.graph d.root

/-- The value of a data text; without any document it is null. -/
def read (t : Text) : Except Fault Value := do
  match ← Document.ofTokens (tokens t) with
  | some d => d.value
  | none => return .null

end Errand.Yaml
