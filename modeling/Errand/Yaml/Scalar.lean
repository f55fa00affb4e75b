/-
  Errand.Yaml.Scalar — the texts of scalars: plain, in quotes, and in blocks.

  A line break inside a plain or quoted scalar counts as a space, further ones as
  themselves. A literal block keeps its line breaks, a folded one joins lines
  that neither begin with a blank nor stand apart.

  The longer loops hold what they have found so far from its end on, so that a
  further part costs its own length.
-/

import Errand.Yaml.Cursor
import Errand.Yaml.Fault

namespace Errand.Yaml.Scalar

/-- A text found so far, its last character first, with a further part. -/
def further (found part : Text) : Text := part.reverseAux found

/-! ## Plain scalars -/

/-- Whether a plain scalar stops before `x`, which `rest` follows. -/
def stopsPlain (inFlow : Bool) (x : CodePoint) (rest : Text) : Bool :=
  let following := rest.headD '\x00'
  isGapOrEnd x ||
    (x == ':' && (isGapOrEnd following || (inFlow && ",[]\x7b\x7d".text.contains following))) ||
    (inFlow && ",?[]\x7b\x7d".text.contains x)

/-- The length of the plain text that begins here. -/
def plainLength (inFlow : Bool) : Text → Nat
  | [] => 0
  | x :: rest => if stopsPlain inFlow x rest then 0 else plainLength inFlow rest + 1

/-- Line breaks and the spaces between them, up to the start of a document. -/
def plainBreaks : Nat → Text → Cursor → Option Text × Cursor
  | 0, found, c => (some found, c)
  | fuel + 1, found, c =>
    if c.peek == ' ' then plainBreaks fuel found c.next
    else if isBreak c.peek then
      let (b, after) := c.lineBreak
      if after.isDocumentMark then (none, after) else plainBreaks fuel (found ++ b) after
    else (some found, c)

/-- A line break followed by further ones, as part of a scalar. -/
def folded (first more : Text) : Text :=
  if first != "\n".text then first ++ more else if more.isEmpty then " ".text else more

/-- What stands between two parts of a plain scalar, whether a line ended in it,
    and the cursor behind. Empty where the scalar ends. -/
def plainGap (c : Cursor) : Text × Bool × Cursor :=
  let (spaces, c) := c.run (· == CodePoint.char ' ')
  if isBreak c.peek then
    let (first, after) := c.lineBreak
    if after.isDocumentMark then ([], true, after)
    else match plainBreaks after.rest.length [] after with
      | (some more, after) => (folded first more, true, after)
      | (none, after) => ([], true, after)
  else (spaces, false, c)

/-- A plain scalar, whether a line ended behind its last part, and the cursor
    behind it. Outside brackets its lines stand at column `indent` or further. Each part
    has one of the characters `ahead` at least. -/
def plain (inFlow : Bool) (indent : Int) :
    (ahead gap found : Text) → Bool → Cursor → Text × Bool × Cursor
  | [], _, found, ended, c => (found.reverse, ended, c)
  | _ :: ahead, gap, found, ended, c =>
    let length := plainLength inFlow c.rest
    if c.peek == '#' || length == 0 then (found.reverse, ended, c)
    else
      let found := further (further found gap) (c.rest.take length)
      let (gap, ended, c) := plainGap (c.skip length)
      if gap.isEmpty || c.peek == '#' || (!inFlow && (c.column : Int) < indent) then
        (found.reverse, ended, c)
      else plain inFlow indent ahead gap found ended c

/-! ## Quoted scalars -/

/-- The characters that a backslash and a letter stand for. -/
def escapes : List (CodePoint × CodePoint) :=
  [('0', '\x00'), ('a', '\x07'), ('b', '\x08'), ('t', '\x09'), ('\t', '\x09'), ('n', '\x0a'),
    ('v', '\x0b'), ('f', '\x0c'), ('r', '\x0d'), ('e', '\x1b'), (' ', ' '), ('"', '"'),
    ('\\', '\\'), ('/', '/'), ('N', '\x85'), ('_', '\xa0'), ('L', '\u2028'), ('P', '\u2029')]

/-- How many hexadecimal digits follow a backslash and a letter. -/
def escapeWidth? (x : CodePoint) : Option Nat :=
  if x = 'x' then some 2 else if x = 'u' then some 4 else if x = 'U' then some 8 else none

def hexValue? (x : CodePoint) : Option Nat :=
  if '0' ≤ x && x ≤ '9' then some (x.toNat - 48)
  else if 'a' ≤ x && x ≤ 'f' then some (x.toNat - 87)
  else if 'A' ≤ x && x ≤ 'F' then some (x.toNat - 55)
  else none

/-- The number of a row of hexadecimal digits. -/
def hexNumber? (digits : Text) : Option Nat :=
  digits.foldl (fun n x => n.bind fun n => (hexValue? x).map (16 * n + ·)) (some 0)

/-- The character with a number given in hexadecimal digits. -/
def numbered (n : Nat) : Except Fault CodePoint :=
  if 0x7FFFFFFF < n then .error .tooLarge
  else if 0x10FFFF < n then .error .noSuchCharacter
  else .ok (CodePoint.ofNat n)

/-- Line breaks in a quoted scalar, with the blanks around them left out; no
    document may start or end there. -/
def quotedBreaks : Nat → Text → Cursor → Except Fault (Text × Cursor)
  | 0, _, _ => .error .malformed
  | fuel + 1, found, c =>
    if c.isDocumentMark then .error .malformed
    else
      let c := (c.run fun x => x == ' ' || x == '\t').2
      if isBreak c.peek then
        let (b, after) := c.lineBreak
        quotedBreaks fuel (found ++ b) after
      else .ok (found, c)

/-- Blanks and line breaks in a quoted scalar. -/
def quotedGap (c : Cursor) : Except Fault (Text × Cursor) := do
  let (blanks, c) := c.run fun x => x == ' ' || x == '\t'
  if c.rest.isEmpty then .error .malformed
  else if isBreak c.peek then
    let (first, after) := c.lineBreak
    let (more, after) ← quotedBreaks (after.rest.length + 1) [] after
    return (folded first more, after)
  else return (blanks, c)

/-- The character or line break behind a backslash in double quotes. -/
def escape (c : Cursor) : Except Fault (Text × Cursor) :=
  match escapes.lookup c.peek, escapeWidth? c.peek with
  | some x, _ => .ok ([x], c.next)
  | none, some width =>
    let digits := c.next.rest.take width
    match hexNumber? digits with
    | none => .error .malformed
    | some n =>
      if digits.length < width then .error .malformed
      else (numbered n).map fun x => ([x], c.next.skip width)
  | none, none =>
    if isBreak c.peek then
      let after := c.lineBreak.2
      quotedBreaks (after.rest.length + 1) [] after
    else .error .malformed

/-- The inside of a scalar in double quotes, and the cursor behind them. Each step takes
    one of the characters `ahead` at least. -/
def doubleQuoted : (ahead found : Text) → Cursor → Except Fault (Text × Cursor)
  | [], _, _ => .error .malformed
  | _ :: ahead, found, c =>
    match c.rest with
    | [] => .error .malformed
    | .char '"' :: _ => .ok (found.reverse, c.next)
    | .char '\\' :: _ =>
      (escape c.next).bind fun (x, after) => doubleQuoted ahead (further found x) after
    | x :: _ =>
      if isGapOrEnd x then
        (quotedGap c).bind fun (gap, after) => doubleQuoted ahead (further found gap) after
      else doubleQuoted ahead (x :: found) c.next

/-- The inside of a scalar in single quotes, where two quotes stand for one. -/
def singleQuoted : (ahead found : Text) → Cursor → Except Fault (Text × Cursor)
  | [], _, _ => .error .malformed
  | _ :: ahead, found, c =>
    match c.rest with
    | [] => .error .malformed
    | .char '\'' :: .char '\'' :: _ => singleQuoted ahead ('\'' :: found) (c.skip 2)
    | .char '\'' :: _ => .ok (found.reverse, c.next)
    | x :: _ =>
      if isGapOrEnd x then
        (quotedGap c).bind fun (gap, after) => singleQuoted ahead (further found gap) after
      else singleQuoted ahead (x :: found) c.next

/-! ## Block scalars -/

/-- What becomes of the line breaks at the end of a block. -/
inductive Chomp where
  | clip
  | strip
  | keep
  deriving DecidableEq

def chomp? (x : CodePoint) : Option Chomp :=
  if x = '+' then some .keep else if x = '-' then some .strip else none

/-- A digit of indentation, never zero. -/
def increment? (x : CodePoint) : Option Nat :=
  if '1' ≤ x && x ≤ '9' then some (x.toNat - 48) else none

/-- The head of a block: chomping and indentation in either order. -/
def blockHead (c : Cursor) : Except Fault (Chomp × Option Nat × Cursor) :=
  let (chomp, increment, c) : Chomp × Option Nat × Cursor :=
    match chomp? c.peek with
    | some chomp =>
      match increment? c.next.peek with
      | some n => (chomp, some n, c.next.next)
      | none => (chomp, none, c.next)
    | none =>
      match increment? c.peek with
      | some n =>
        match chomp? c.next.peek with
        | some chomp => (chomp, some n, c.next.next)
        | none => (.clip, some n, c.next)
      | none => (.clip, none, c)
  if isSpaceBreakOrEnd c.peek then
    let c := c.dropSpaces.skipComment
    if isBreakOrEnd c.peek then .ok (chomp, increment, c.lineBreak.2) else .error .malformed
  else .error .malformed

/-- The line breaks in front of a block, and the furthest column that spaces reach
    there. -/
def blockIndentation : Nat → Text → Nat → Cursor → Text × Nat × Cursor
  | 0, found, furthest, c => (found, furthest, c)
  | fuel + 1, found, furthest, c =>
    if c.peek == ' ' then
      blockIndentation fuel found (max furthest c.next.column) c.next
    else if isBreak c.peek then
      let (b, after) := c.lineBreak
      blockIndentation fuel (found ++ b) furthest after
    else (found, furthest, c)

/-- Spaces up to a column. -/
def skipIndent (indent : Nat) : Nat → Cursor → Cursor
  | 0, c => c
  | fuel + 1, c => if c.column < indent && c.peek == ' ' then skipIndent indent fuel c.next else c

/-- Empty lines of a block. -/
def blockBreaks (indent : Nat) : Nat → Text → Cursor → Text × Cursor
  | 0, found, c => (found, c)
  | fuel + 1, found, c =>
    let c := skipIndent indent indent c
    if isBreak c.peek then
      let (b, after) := c.lineBreak
      blockBreaks indent fuel (found ++ b) after
    else (found, c)

/-- The lines of a block. `breaks` are the line breaks passed since the last one. -/
def blockLines (fold : Bool) (chomp : Chomp) (indent : Nat) :
    Nat → (found breaks : Text) → Cursor → Text × Cursor
  | 0, found, _, c => (found.reverse, c)
  | fuel + 1, found, breaks, c =>
    if c.column == indent && !c.rest.isEmpty then
      let startsPlain := c.peek != ' ' && c.peek != '\t'
      let (line, c) := c.run fun x => !isBreakOrEnd x
      let found := further (further found breaks) line
      let (lineBreak, c) := c.lineBreak
      let (breaks, c) := blockBreaks indent fuel [] c
      if c.column == indent && !c.rest.isEmpty then
        let joins := fold && lineBreak == "\n".text && startsPlain && c.peek != ' ' && c.peek != '\t'
        let between := if joins then (if breaks.isEmpty then " ".text else []) else lineBreak
        blockLines fold chomp indent fuel (further found between) breaks c
      else
        (found.reverse ++ (if chomp = .strip then [] else lineBreak) ++
          (if chomp = .keep then breaks else []), c)
    else (found.reverse ++ (if chomp = .keep then breaks else []), c)

/-- A block scalar behind its indicator; `indent` is the column that encloses it. -/
def block (fold : Bool) (indent : Int) (c : Cursor) : Except Fault (Text × Cursor) :=
  (blockHead c).map fun (chomp, increment, c) =>
    let least := (max (indent + 1) 1).toNat
    let (column, breaks, c) : Nat × Text × Cursor :=
      match increment with
      | none =>
        let (breaks, furthest, c) := blockIndentation c.rest.length [] 0 c
        (max least furthest, breaks, c)
      | some n =>
        let column := least + n - 1
        let (breaks, c) := blockBreaks column (c.rest.length + 1) [] c
        (column, breaks, c)
    blockLines fold chomp column (c.rest.length + 1) [] breaks c

end Errand.Yaml.Scalar
