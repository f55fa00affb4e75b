/-
  Errand.Wildcard.Group — the occurrences that stand for the same thing.

  A group has one keycode. What it asks for is taken from all of its members: the
  subtype most of them have, and every clause.
-/

import Errand.Wildcard.Occurrence

namespace Errand

/-- Occurrences with the keycode of the first one. -/
structure Group where
  first : Occurrence
  others : List Occurrence

namespace Group

def members (g : Group) : List Occurrence := g.first :: g.others

def keycode (g : Group) : Text := g.first.keycode

def name (g : Group) : Text := g.first.name

/-- The group with one more member; none if its keycode is another one. -/
def add? (g : Group) (w : Occurrence) : Option Group :=
  if w.keycode = g.keycode then some { g with others := g.others ++ [w] } else none

/-- The subtypes of the members that have one, in order. -/
def subtypes (g : Group) : List Text :=
  g.members.filterMap fun w => w.subtype.filter (!·.isEmpty)

/-- The most frequent element, of several the one that comes first. -/
def mostFrequent : List Text → Option Text
  | [] => none
  | x :: xs => some (xs.foldl
      (fun best y => if (x :: xs).count best < (x :: xs).count y then y else best) x)

/-- The subtype that most members have; of several the one written first. -/
def subtype (g : Group) : Option Text := mostFrequent g.subtypes

/-- The clauses of the members that have one, in order. -/
def clauses (g : Group) : List Text := g.members.filterMap fun w => w.clause.filter (!·.isEmpty)

/-- All clauses in one. -/
def clause (g : Group) : Text := Text.join " and ".text g.clauses

def references (g : Group) : List Text := Errand.references g.clause

def summary (g : Group) : Text :=
  "Wildcard(".text ++ Text.shown g.keycode ++ ", ".text ++ decimal g.members.length ++ ")".text

/-- The groups with one more occurrence, which goes to the group with its keycode
    or begins one. -/
def insert (w : Occurrence) : List Group → List Group
  | [] => [⟨w, []⟩]
  | g :: rest => match g.add? w with
    | some g => g :: rest
    | none => g :: insert w rest

/-- The groups of occurrences, in the order of their first members. -/
def ofOccurrences (ws : List Occurrence) : List Group := ws.foldl (fun gs w => insert w gs) []

end Group

end Errand
