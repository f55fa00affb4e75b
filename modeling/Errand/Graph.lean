/-
  Errand.Graph — collections that share their members.

  A graph is a row of nodes, each a scalar or a collection whose members are nodes of
  the graph, given by their numbers. One node may be a member of many collections, so
  a small graph can stand for a very large value, and a collection may hold itself.

  A collection that comes up inside itself is shown there by three dots, so every
  node can be shown: no node is on the way to itself twice (`shownFrom`).
-/

import Errand.Scalar

namespace Errand

/-- A scalar, or a collection of nodes. -/
inductive GraphNode where
  | scalar (s : Scalar)
  | list (items : List Nat)
  /-- A list of pairs. -/
  | pairs (items : List (Nat × Nat))
  | map (entries : List (Scalar × Nat))
  | set (members : List Scalar)
  deriving DecidableEq, Repr, Inhabited

abbrev Graph := Array GraphNode

/-! ## How collections are shown -/

namespace Text

/-- Parts between two marks, with commas between neighbours. -/
def enclosed (before after : String) (parts : List Text) : Text :=
  before.text ++ join ", ".text parts ++ after.text

def listText (items : List Text) : Text := enclosed "[" "]" items

def pairText (first second : Text) : Text := enclosed "(" ")" [first, second]

/-- The entries of a mapping, each a key and what it has. -/
def mapText (entries : List (Text × Text)) : Text :=
  enclosed "\x7b" "\x7d" (entries.map fun (key, value) => key ++ ": ".text ++ value)

def setText (members : List Text) : Text :=
  if members.isEmpty then "set()".text else enclosed "\x7b" "\x7d" members

end Text

namespace GraphNode

/-- What a collection is shown as inside itself. -/
def againText : GraphNode → Text
  | .list _ | .pairs _ => "[...]".text
  | _ => "\x7b...\x7d".text

/-- The name of a node's kind, as messages give it. -/
def kindName : GraphNode → Text
  | .scalar s => s.kindName
  | .list _ | .pairs _ => "list".text
  | .map _ => "dict".text
  | .set _ => "set".text

/-- Whether a node counts as empty. -/
def isEmpty : GraphNode → Bool
  | .scalar s => s.isEmpty
  | .list items => items.isEmpty
  | .pairs items => items.isEmpty
  | .map entries => entries.isEmpty
  | .set members => members.isEmpty

end GraphNode

namespace Graph

/-- The loop of `shown?`: a node inside the nodes `around`, which are all different.
    `depth` more nodes can be on the way. -/
def shownFrom (g : Graph) : (depth : Nat) → (around : List Nat) → Nat → Option Text
  | 0, _, _ => none
  | depth + 1, around, n =>
    match g[n]? with
    | none => none
    | some (.scalar s) => s.shown?
    | some (.set members) => (members.mapM Scalar.shown?).map Text.setText
    | some node =>
      if around.contains n then some node.againText
      else
        let inside := shownFrom g depth (n :: around)
        match node with
        | .list items => (items.mapM inside).map Text.listText
        | .pairs items =>
          (items.mapM fun (a, b) => do return Text.pairText (← inside a) (← inside b)).map Text.listText
        | .map entries =>
          (entries.mapM fun (key, m) => do return (← Scalar.shown? key, ← inside m)).map Text.mapText
        | _ => none

/-- A node as shown inside a message, unless there is an integer of too many digits in
    it. -/
def shown? (g : Graph) (n : Nat) : Option Text := g.shownFrom (g.size + 1) [] n

end Graph

end Errand
