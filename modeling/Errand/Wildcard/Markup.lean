/-
  Errand.Wildcard.Markup — a text with its markers read, those nested in clauses
  and metadata too.

  Reading knows nothing of numbers given later: it only says what is a marker and
  what is text. A backslash has a meaning inside markers alone. In a clause it
  keeps the next character from beginning a marker; in metadata it does so as
  well, and is dropped in front of a bracket or another backslash.
-/

import Errand.Wildcard.Marker

namespace Errand

/-- A text from its beginning to its end, or to a fault. -/
inductive Markup where
  | done
  | fault (f : MarkerFault)
  | char (c : CodePoint) (rest : Markup)
  /-- A marker, the number of characters before it, and what its clause and its
      metadata are read as. -/
  | marker (m : Marker) (place : Nat) (clause metadata rest : Markup)
  deriving Repr

/-- Where a text comes from. -/
inductive MarkupKind where
  | sentence
  | clause
  | metadata
  deriving DecidableEq, Repr

namespace Markup

/-- Whether a backslash is dropped in front of a character of metadata. -/
def isUnescaped (c : CodePoint) : Bool := c == '\x7b' || c == '\x7d' || c == '\\'

/-- What a backslash and the character behind it stand for. -/
def escaped (kind : MarkupKind) (c : CodePoint) (rest : Markup) : Markup :=
  if kind = .metadata && isUnescaped c then .char c rest else .char '\\' (.char c rest)

theorem getD_length {o : Option Text} {n : Nat} (h : ∀ t ∈ o, t.length ≤ n) : (o.getD []).length ≤ n := by
  cases o <;> simp_all

/-- The markup of a text behind `place` characters. -/
def read (kind : MarkupKind) (place : Nat) : Text → Markup
  | [] => .done
  | .char '\\' :: c :: rest =>
    if kind = .sentence then .char '\\' (read kind (place + 1) (c :: rest))
    else escaped kind c (read kind (place + 2) rest)
  | c :: rest =>
    if c = '\x7b' then
      match _h : Marker.read rest with
      | .error f => .fault f
      | .ok none => .char c (read kind (place + 1) rest)
      | .ok (some (m, after)) =>
        .marker m place (read .clause 0 (m.clause.getD [])) (read .metadata 0 (m.metadata.getD []))
          (read kind (place + m.text.length) after)
    else .char c (read kind (place + 1) rest)
termination_by t => t.length
decreasing_by
  all_goals simp only [List.length_cons]
  any_goals omega
  · have := getD_length (Marker.read_length _h).2.1; omega
  · have := getD_length (Marker.read_length _h).2.2; omega
  · have := (Marker.read_length _h).1; omega

end Markup

end Errand
