/-
  Errand.Grammar.Line — the lines of a grammar text.

  A line holds code and may end in a comment, begun by `//`, `#`, `;` or `%`. What
  stands between `/*` and `*/` belongs to neither, on however many lines. Blanks
  around a line and around its code do not count.
-/

import Errand.Text.Basic

namespace Errand

structure GrammarLine where
  /-- Empty if the line has no code. -/
  code : Text
  comment : Option Text
  deriving DecidableEq, Repr

namespace GrammarLine

/-- The characters that begin a comment alone. -/
def isCommentMark (c : CodePoint) : Bool := c == '#' || c == ';' || c == '%'

/-- A line read, and whether it ends inside a block comment. -/
structure Scan where
  code : Text
  comment : Option Text
  inBlock : Bool

/-- The code and the comment of one line, which begins inside a block comment or
    not. -/
def scan : (inBlock : Bool) → Text → Scan
  | inBlock, [] => ⟨[], none, inBlock⟩
  | true, .char '*' :: .char '/' :: rest => scan false rest
  | true, _ :: rest => scan true rest
  | false, .char '/' :: .char '/' :: rest => ⟨[], some rest, false⟩
  | false, .char '/' :: .char '*' :: rest => scan true rest
  | false, c :: rest =>
    if isCommentMark c then ⟨[], some rest, false⟩
    else
      let s := scan false rest
      { s with code := c :: s.code }

/-- The loop of `ofText`. -/
def ofLines : (inBlock : Bool) → List Text → List GrammarLine
  | _, [] => []
  | inBlock, line :: rest =>
    let s := scan inBlock (Text.trim line)
    ⟨Text.trim s.code, s.comment⟩ :: ofLines s.inBlock rest

/-- The lines of a grammar text. -/
def ofText (t : Text) : List GrammarLine := ofLines false (Text.lines t)

end GrammarLine

end Errand
