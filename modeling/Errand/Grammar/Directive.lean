/-
  Errand.Grammar.Directive — what the comments of a grammar text declare.

  A comment can name the grammar, give its tier, or take in another file. The
  words of a directive may be written in any case; a dotted or dotless letter
  counts as an i then, and a long s as an s.
-/

import Errand.Grammar.Rule
import Errand.Text.Alphabet
import Errand.Text.Case

namespace Errand.Directive

/-! ## Words in any case -/

/-- Whether a character is the given small letter in any case. -/
def isLetterOf (small c : CodePoint) : Bool :=
  c.toLower == small || (small == 'i' && (c == 'İ' || c == 'ı')) || (small == 's' && c == 'ſ')

/-- What follows a word in any case. -/
def word? : (word : Text) → Text → Option Text
  | [], t => some t
  | small :: word, c :: rest => if isLetterOf small c then word? word rest else none
  | _ :: _, [] => none

/-- What follows the blanks here, of which there must be one. -/
def blanks? : Text → Option Text
  | c :: rest => if Text.isBlank c then some (Text.trimLeft rest) else none
  | [] => none

/-- What follows the word `grammar` and another one. -/
def declared? (what t : Text) : Option Text := do
  blanks? (← word? what (← blanks? (← word? "grammar".text (Text.trimLeft t))))

/-! ## Name and tier -/

/-- The name that a comment gives to its grammar. -/
def name? (comment : Text) : Option Text := (declared? "name".text comment).map Text.trimRight

/-- The word by which a comment gives the tier of its grammar. -/
def tier? (comment : Text) : Option Text := do
  let word := (← declared? "tier".text comment).takeWhile Text.isWordChar
  if word.isEmpty then none else some word

/-! ## Other files -/

/-- A file to take in: with all its rules, without its start rule, or mounted
    under a nonterminal. -/
structure Inclusion where
  /-- The word used, in small letters. -/
  word : Text
  target : Text
  mount : Option Text
  deriving DecidableEq, Repr

/-- Whether a rule name in a directive may have the character: those of other
    names, and letters whose other case is one of those. -/
def isMountChar (c : CodePoint) : Bool :=
  isRuleChar c || c == 'İ' || c == 'ı' || c == 'ſ' || c == '\u212A'

/-- The nonterminal to mount a file under, with nothing behind it. -/
def mount? (t : Text) : Option Text := do
  match ← blanks? (← word? "as".text (← blanks? t)) with
  | .char '$' :: rest =>
    let name := rest.takeWhile isMountChar
    if !name.isEmpty && (rest.dropWhile isMountChar).all Text.isBlank then some ('$' :: name)
    else none
  | _ => none

/-- A target in quotes, which are part of what is given, and what follows. -/
def quotedTarget? (quote : CodePoint) : Text → Option (Text × Text)
  | c :: rest =>
    let inside := rest.takeWhile (· != quote)
    match rest.dropWhile (· != quote) with
    | _ :: after => if c = quote && !inside.isEmpty then some (c :: inside ++ [quote], after) else none
    | [] => none
  | [] => none

/-- A target without blanks, and what follows. -/
def plainTarget? (t : Text) : Option (Text × Text) :=
  let target := t.takeWhile (!Text.isBlank ·)
  if target.isEmpty then none else some (target, t.dropWhile (!Text.isBlank ·))

/-- The inclusion with a target, if what follows the target can follow it. -/
def completed? (word target after : Text) : Option Inclusion :=
  let inclusion (mount : Option Text) : Inclusion :=
    ⟨Text.lower word, Text.stripAll (fun c => c == '"' || c == '\'') target, mount⟩
  match mount? after with
  | some name => some (inclusion (some name))
  | none => if after.all Text.isBlank then some (inclusion none) else none

/-- The inclusion that a comment asks for. A target in quotes may have blanks, if
    nothing but a mount follows. -/
def inclusion? (comment : Text) : Option Inclusion := do
  let t := Text.trimLeft comment
  let rest ← word? "load".text t <|> word? "import".text t
  let word := t.take (t.length - rest.length)
  let rest ← blanks? rest
  [quotedTarget? '"' rest, quotedTarget? '\'' rest, plainTarget? rest].findSome? fun found =>
    found.bind fun (target, after) => completed? word target after

/-- Whether the start rule of the file is left out. -/
def Inclusion.isImport (i : Inclusion) : Bool := i.word = "import".text

end Errand.Directive
