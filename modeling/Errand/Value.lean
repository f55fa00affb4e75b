/-
  Errand.Value — the values entity data is made of: what a property holds, what a
  data file is read into.

  A mapping keeps its entries in the order of their first writing. A collection may be
  a node of a graph; `opened` gives what is right inside it, so that whoever reads a
  value meets one layer at a time and never the whole of what is shared.

  Here: how a value is shown, which values count as empty, and mappings from texts to
  values (the free properties of an entity).
-/

import Errand.Graph

namespace Errand

inductive Value where
  | scalar (s : Scalar)
  | list (items : List Value)
  | map (entries : List (Scalar × Value))
  | pair (first second : Value)
  | set (members : List Scalar)
  /-- A collection of a graph. -/
  | node (g : Graph) (n : Nat)
  deriving Repr, Inhabited

namespace Value

@[match_pattern] abbrev null : Value := .scalar .null
@[match_pattern] abbrev bool (b : Bool) : Value := .scalar (.bool b)
@[match_pattern] abbrev int (n : Int) : Value := .scalar (.int n)
@[match_pattern] abbrev real (x : Double) : Value := .scalar (.real x)
@[match_pattern] abbrev text (t : Text) : Value := .scalar (.text t)

/-! ## Collections of a graph -/

/-- The value of a node. -/
def ofNode (g : Graph) (n : Nat) : Value :=
  match g[n]? with
  | some (.scalar s) => .scalar s
  | some _ => .node g n
  | none => .null

/-- A value whose outermost collection is no node of a graph. -/
def opened : Value → Value
  | .node g n =>
    match g[n]? with
    | some (.scalar s) => .scalar s
    | some (.list items) => .list (items.map (ofNode g))
    | some (.pairs items) => .list (items.map fun (a, b) => .pair (ofNode g a) (ofNode g b))
    | some (.map entries) => .map (entries.map fun (key, m) => (key, ofNode g m))
    | some (.set members) => .set members
    | none => .null
  | v => v

/-! ## Showing a value -/

mutual

/-- A value as shown inside a message: texts stand in quotes. A value with an
    integer of too many digits in it cannot be shown. -/
def shown? : Value → Option Text
  | .scalar s => s.shown?
  | .list items => (shownItems items).map Text.listText
  | .map entries => (shownEntries entries).map Text.mapText
  | .pair a b => do return Text.pairText (← shown? a) (← shown? b)
  | .set members => (members.mapM Scalar.shown?).map Text.setText
  | .node g n => g.shown? n

def shownItems : List Value → Option (List Text)
  | [] => some []
  | v :: rest => do return (← shown? v) :: (← shownItems rest)

def shownEntries : List (Scalar × Value) → Option (List (Text × Text))
  | [] => some []
  | (key, v) :: rest => do return (← key.shown?, ← shown? v) :: (← shownEntries rest)

end

/-- A value as a text: a text is itself, days and moments are as one writes them,
    all else is as shown. -/
def display? : Value → Option Text
  | .scalar s => s.display?
  | v => v.shown?

/-- The name of a value's kind, as messages give it. -/
def kindName : Value → Text
  | .scalar s => s.kindName
  | .list _ => "list".text
  | .map _ => "dict".text
  | .pair .. => "tuple".text
  | .set _ => "set".text
  | .node g n => ((g[n]?).getD (.scalar .null)).kindName

/-- Empty scalars and collections without members count as empty. -/
def isEmpty : Value → Bool
  | .scalar s => s.isEmpty
  | .list items => items.isEmpty
  | .map entries => entries.isEmpty
  | .pair .. => false
  | .set members => members.isEmpty
  | .node g n => ((g[n]?).getD (.scalar .null)).isEmpty

/-- What a list of entries has under a text. -/
def lookup? (key : Text) : List (Scalar × Value) → Option Value
  | [] => none
  | (.text k, v) :: rest => if k = key then some v else lookup? key rest
  | _ :: rest => lookup? key rest

end Value

/-! ## Properties -/

/-- The free properties of an entity, in the order of their first writing. -/
abbrev Properties := List (Text × Value)

namespace Properties

/-- A name gets a value: in its place if it is there, else at the end. -/
def insert (name : Text) (value : Value) : Properties → Properties
  | [] => [(name, value)]
  | (n, v) :: rest => if n = name then (n, value) :: rest else (n, v) :: insert name value rest

/-- All of `more` written into `ps`, in order. -/
def update (ps more : Properties) : Properties :=
  more.foldl (fun acc (name, value) => insert name value acc) ps

def get? (name : Text) : Properties → Option Value
  | [] => none
  | (n, v) :: rest => if n = name then some v else get? name rest

end Properties

end Errand
