/-
  Errand.Yaml.Cursor — a place in a data text, with its line and column.

  Columns decide what belongs to what in block style, lines which texts may be
  keys. A byte order mark takes no column, and a carriage return followed by a
  line feed ends its line once. Past the end stands a null character, which a
  data text itself never holds.
-/

import Errand.Text.Basic

namespace Errand.Yaml

/-! ## Classes of characters -/

/-- The characters a data text may hold. -/
def isAllowed (c : CodePoint) : Bool :=
  let n := c.toNat
  n == 0x09 || n == 0x0A || n == 0x0D || (0x20 ≤ n && n ≤ 0x7E) || n == 0x85 ||
    (0xA0 ≤ n && n ≤ 0xD7FF) || (0xE000 ≤ n && n ≤ 0xFFFD) || 0x10000 ≤ n

def isBreak (c : CodePoint) : Bool :=
  c == '\n' || c == '\r' || c == '\x85' || c == '\u2028' || c == '\u2029'

def isBreakOrEnd (c : CodePoint) : Bool := c == '\x00' || isBreak c

def isSpaceBreakOrEnd (c : CodePoint) : Bool := c == ' ' || isBreakOrEnd c

/-- What must follow an indicator that is not to be part of a plain text. -/
def isGapOrEnd (c : CodePoint) : Bool := c == '\t' || isSpaceBreakOrEnd c

/-- The characters of anchors and of the names of directives. -/
def isWordChar (c : CodePoint) : Bool := c.isAlphanum || c == '-' || c == '_'

/-! ## Cursors -/

structure Cursor where
  rest : Text
  index : Nat
  line : Nat
  column : Nat

namespace Cursor

def start (t : Text) : Cursor := ⟨t, 0, 0, 0⟩

/-- The character at the cursor. -/
def peek (c : Cursor) : CodePoint := c.rest.headD '\x00'

/-- The character `n` places on. -/
def peekAt (c : Cursor) (n : Nat) : CodePoint := (c.rest.drop n).headD '\x00'

/-- One character on. -/
def next (c : Cursor) : Cursor :=
  match c.rest with
  | [] => c
  | x :: rest =>
    if (x == '\r' && rest.head? != some '\n') || (isBreak x && x != '\r') then
      ⟨rest, c.index + 1, c.line + 1, 0⟩
    else if x == '\uFEFF' then { c with rest := rest, index := c.index + 1 }
    else ⟨rest, c.index + 1, c.line, c.column + 1⟩

/-- `n` characters on. -/
def skip : Nat → Cursor → Cursor
  | 0, c => c
  | n + 1, c => skip n c.next

/-- The run of characters of a class at the cursor, and the cursor behind it. -/
def run (p : CodePoint → Bool) (c : Cursor) : Text × Cursor :=
  let found := c.rest.takeWhile p
  (found, c.skip found.length)

def dropSpaces (c : Cursor) : Cursor := (c.run (· == CodePoint.char ' ')).2

/-- Behind a comment, if one begins here. -/
def skipComment (c : Cursor) : Cursor :=
  if c.peek == '#' then (c.run fun x => !isBreakOrEnd x).2 else c

/-- The line break at the cursor, empty if none is here. All breaks but the two
    separators of Unicode come out as a line feed. -/
def lineBreak (c : Cursor) : Text × Cursor :=
  let x := c.peek
  if x == '\u2028' || x == '\u2029' then ([x], c.next)
  else if isBreak x then
    ("\n".text, if x == '\r' && c.peekAt 1 == '\n' then c.skip 2 else c.next)
  else ([], c)

/-- Whether three equal marks of a document stand here. -/
def isMark (mark : CodePoint) (c : Cursor) : Bool :=
  c.rest.take 3 == [mark, mark, mark] && isGapOrEnd (c.peekAt 3)

/-- Whether a document starts or ends here. -/
def isDocumentMark (c : Cursor) : Bool := c.isMark '-' || c.isMark '.'

end Cursor

end Errand.Yaml
