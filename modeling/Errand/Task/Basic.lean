/-
  Errand.Task.Basic — tasks: sentences with everything in its place.

  A task keeps the sentence as tokens, so that each piece of the text can be
  traced to the piece of the sentence it came from. A token shows its own text, an
  entity, or a stand-in for one.

  An entity may be called by bytes. A task that shows such a name is none that one can
  write (`isWritable`), though it is a task like any other.
-/

import Errand.Entity.Record
import Errand.Text.Display

namespace Errand

/-! ## Tidy text -/

namespace Text

/-- One space for several in a row. -/
def singleSpaces : Text → Text
  | [] => []
  | c :: rest =>
    if c = ' ' && rest.head? == some ' ' then singleSpaces rest else c :: singleSpaces rest

/-- The marks that no space stands in front of. -/
def isCloseMark (c : CodePoint) : Bool := c == ',' || c == ';' || c == '.' || c == ':' || c == '?'

/-- No space right in front of a mark. -/
def closeMarks : Text → Text
  | [] => []
  | c :: rest =>
    if c = ' ' && rest.head?.any isCloseMark then closeMarks rest else c :: closeMarks rest

/-- The text as one would write it: single spaces, none in front of marks, no blanks
    at the ends. -/
def tidy (t : Text) : Text := trim (closeMarks (singleSpaces t))

end Text

/-! ## Stand-ins -/

/-- Words that are shown and stand for no entity. -/
structure StandIn where
  words : Text
  deriving DecidableEq, Repr

namespace StandIn

def nothing : StandIn := ⟨[]⟩
def somewhere : StandIn := ⟨"somewhere".text⟩
def apartment : StandIn := ⟨"apartment".text⟩
def objects : StandIn := ⟨"objects".text⟩
def person : StandIn := ⟨"a person".text⟩

/-- The personal pronoun for someone of a gender, or for a thing. -/
def pronoun (gender : Option Gender) (objective : Bool) : StandIn :=
  ⟨match gender, objective with
    | some .male, false => "he".text
    | some .male, true => "him".text
    | some .female, false => "she".text
    | some .female, true => "her".text
    | none, _ => "it".text⟩

def summary (s : StandIn) : Text := "Obfuscator(".text ++ Text.shown s.words ++ ")".text

end StandIn

/-- What a wildcard is replaced with. -/
inductive Shown where
  | entity (e : Entity)
  | standIn (s : StandIn)

namespace Shown

def name : Shown → Name
  | .entity e => e.name
  | .standIn s => .text s.words

def metadata : Shown → List Text
  | .entity e => e.metadata
  | .standIn _ => []

end Shown

/-! ## Tokens -/

structure Token where
  /-- The piece of the sentence that the token comes from. -/
  source : Text
  /-- What it is replaced with, if anything. -/
  shown : Option Name
  metadata : List Name
  deriving DecidableEq, Repr

namespace Token

/-- A piece of a sentence that stays as it is. -/
def literal (source : Text) : Token := ⟨source, none, []⟩

/-- A piece of a sentence that is replaced; what replaces it adds its metadata. -/
def replaced (source : Text) (shown : Shown) (metadata : List Text) : Token :=
  ⟨source, some shown.name, (metadata ++ shown.metadata).map .text⟩

def name (t : Token) : Name := t.shown.getD (.text t.source)

def isLiteral (t : Token) : Bool := t.shown.isNone

/-- The source, and what it became if it was replaced. -/
def written (t : Token) : Text :=
  match t.shown with
  | none => t.source
  | some shown => t.source ++ " => ".text ++ shown.display

def summary (t : Token) : Text :=
  "Token(".text ++ Text.shown t.source ++ ", ".text ++ t.name.shown ++ ")".text

end Token

/-! ## Tasks -/

structure Task where
  tokens : List Token
  /-- What each keycode was bound to. -/
  assignments : List (Text × Name)
  /-- The name of the grammar, empty for a sentence without one. -/
  grammar : Text

namespace Task

/-- The sentence with all names in it. -/
def text (t : Task) : Text := Text.tidy (t.tokens.flatMap (·.name.display))

/-- Whether all that is shown is text. -/
def isWritable (t : Task) : Bool := t.tokens.all (·.name.isText)

def metadata (t : Task) : List Name := t.tokens.flatMap (·.metadata)

/-- Whether all metadata are texts. -/
def hasTextMetadata (t : Task) : Bool := t.metadata.all (·.isText)

def summary (t : Task) : Text := "Task(".text ++ Text.shown t.text ++ ")".text

end Task

end Errand
