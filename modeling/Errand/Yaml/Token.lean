/-
  Errand.Yaml.Token — the tokens of a data text.

  Indentation is turned into tokens that open and close block collections. A text
  that may turn out to be a key is remembered until a colon follows it: then the
  key's token is put in front of it, and the token of a block mapping as well if
  its column begins one. Such a text must stand on one line and within 1024
  characters, and at the column of its block mapping it must be a key.

  A part that is no token ends the tokens, with the fault in it. In front of it
  come those tokens only that are certain: while a text may still turn out to be a
  key, one does not know what stands there.
-/

import Errand.Yaml.Tag
import Errand.Number.Numeral

namespace Errand.Yaml

/-- What a directive says. -/
inductive Directive where
  | version
  /-- The handle of tags stands for `start`. -/
  | handle (name start : Text)
  | other
  deriving DecidableEq, Repr

inductive Token where
  | directive (d : Directive)
  | documentStart
  | documentEnd
  | blockSequence
  | blockMapping
  | blockEnd
  | flowSequence
  | flowSequenceEnd
  | flowMapping
  | flowMappingEnd
  | flowEntry
  | blockEntry
  | key
  | value
  | reference (name : Text)
  | anchor (name : Text)
  | tag (handle : Option Text) (suffix : Text)
  | scalar (text : Text) (isPlain : Bool)
  /-- The place where no more tokens can be read. -/
  | broken (f : Fault)
  deriving DecidableEq, Repr

/-! ## The state of the reading -/

/-- A text that may be a key: the number of the token it begins with, whether it
    must be one, and where it begins. -/
structure PossibleKey where
  token : Nat
  isRequired : Bool
  index : Nat
  line : Nat
  column : Nat

structure Reading where
  cursor : Cursor
  tokens : Array Token
  /-- The column of the innermost block collection, and those around it. -/
  indent : Int
  indents : List Int
  flowLevel : Nat
  /-- A key may begin here. -/
  keyAllowed : Bool
  /-- The possible key of each flow level that has one. -/
  keys : List (Nat × PossibleKey)

namespace Reading

def start (t : Text) : Reading := ⟨.start t, #[], -1, [], 0, true, []⟩

def inFlow (r : Reading) : Bool := r.flowLevel != 0

def push (r : Reading) (t : Token) : Reading := { r with tokens := r.tokens.push t }

/-- A token written with `n` characters. -/
def take (r : Reading) (n : Nat) (t : Token) : Reading :=
  { r with tokens := r.tokens.push t, cursor := r.cursor.skip n }

/-! ## Indentation -/

/-- Closes the block collections whose column lies beyond `column`. -/
def unwindFrom (column : Int) : List Int → Reading → Reading
  | [], r => r
  | outer :: more, r =>
    if column < r.indent then
      unwindFrom column more
        { r with indent := outer, indents := more, tokens := r.tokens.push .blockEnd }
    else r

def unwind (column : Int) (r : Reading) : Reading :=
  if r.inFlow then r else unwindFrom column r.indents r

/-- Opens a block collection at `column` unless one is open there; its token goes
    to the place `at_`. -/
def openBlock (r : Reading) (column : Nat) (at_ : Nat) (t : Token) : Reading :=
  if r.indent < column then
    { r with
      indents := r.indent :: r.indents
      indent := column
      tokens := r.tokens.insertIdxIfInBounds at_ t }
  else r

/-! ## Possible keys -/

/-- Forgets the possible key of this level, unless it had to be a key. -/
def dropKey (r : Reading) : Except Fault Reading :=
  match r.keys.lookup r.flowLevel with
  | none => .ok r
  | some k =>
    if k.isRequired then .error .malformed
    else .ok { r with keys := r.keys.filter fun (level, _) => level != r.flowLevel }

/-- Remembers that a key may begin here. -/
def saveKey (r : Reading) : Except Fault Reading :=
  if r.keyAllowed then
    (dropKey r).map fun r =>
      { r with keys := (r.flowLevel,
          { token := r.tokens.size
            isRequired := !r.inFlow && r.indent == r.cursor.column
            index := r.cursor.index
            line := r.cursor.line
            column := r.cursor.column }) :: r.keys }
  else .ok r

/-- A possible key that the reading has left too far behind. -/
def isStale (c : Cursor) (k : PossibleKey) : Bool :=
  k.line != c.line || 1024 < c.index - k.index

/-- Forgets the possible keys left behind, unless one of them had to be a key. -/
def dropStaleKeys (r : Reading) : Except Fault Reading :=
  if r.keys.any fun (_, k) => isStale r.cursor k && k.isRequired then .error .malformed
  else .ok { r with keys := r.keys.filter fun (_, k) => !isStale r.cursor k }

/-- The tokens that no key can come in front of any more. -/
def certain (r : Reading) : List Token :=
  (r.keys.filter fun (_, k) => !isStale r.cursor k).foldl (fun tokens (_, k) => tokens.take k.token)
    r.tokens.toList

/-! ## Between tokens -/

/-- Past spaces, comments and line breaks; outside brackets a key may begin on a
    new line. No more lines end than there are characters `ahead`. -/
def skipGap : (ahead : Text) → Reading → Reading
  | [], r => r
  | _ :: ahead, r =>
    let c := r.cursor.dropSpaces.skipComment
    if isBreak c.peek then
      skipGap ahead
        { r with cursor := c.lineBreak.2, keyAllowed := r.keyAllowed || !r.inFlow }
    else { r with cursor := c }

/-- Past a byte order mark at the very beginning, and all else between tokens. -/
def toNextToken (r : Reading) : Reading :=
  let c := if r.cursor.index == 0 && r.cursor.peek == '\uFEFF' then r.cursor.next else r.cursor
  skipGap c.rest { r with cursor := c }

/-! ## Tokens of one kind -/

/-- Ends what is open in front of a document mark or a directive. -/
def endBlocks (r : Reading) : Except Fault Reading :=
  (r.unwind (-1)).dropKey.map fun r => { r with keyAllowed := false }

/-- One of the two numbers of a version. -/
def versionNumber (c : Cursor) : Except Fault (Nat × Cursor) :=
  let (digits, c) := c.run CodePoint.isDigit
  if digits.isEmpty then .error .malformed
  else if Numeral.maxDigits < digits.length then .error .notNumber
  else .ok (Numeral.value digits, c)

/-- The version that a directive asks for; its first number must be one. -/
def version (c : Cursor) : Except Fault (Directive × Cursor) := do
  let (major, c) ← versionNumber c.dropSpaces
  if c.peek != '.' then .error .malformed
  else
    let (_, c) ← versionNumber c.next
    if major != 1 || !isSpaceBreakOrEnd c.peek then .error .malformed else return (.version, c)

/-- A handle of tags and what it stands for. -/
def handleDefinition (c : Cursor) : Except Fault (Directive × Cursor) := do
  let (name, c) ← Tag.handle c.dropSpaces
  if c.peek != ' ' then .error .malformed
  else
    let (start, c) ← Tag.suffix c.dropSpaces
    if isSpaceBreakOrEnd c.peek then return (.handle name start, c) else .error .malformed

/-- A directive up to the end of its line, where a comment may stand. Other ones than
    those of the version and of handles say nothing. -/
def directive (r : Reading) : Except Fault Reading := do
  let r ← r.endBlocks
  let (name, c) := r.cursor.next.run isWordChar
  if name.isEmpty || !isSpaceBreakOrEnd c.peek then .error .malformed
  else
    let (d, c) ←
      if name = "YAML".text then version c
      else if name = "TAG".text then handleDefinition c
      else .ok (.other, (c.run fun x => !isBreakOrEnd x).2)
    let c := c.dropSpaces.skipComment
    if isBreakOrEnd c.peek then
      return { r with cursor := c.lineBreak.2, tokens := r.tokens.push (.directive d) }
    else .error .malformed

def documentMark (r : Reading) (t : Token) : Except Fault Reading :=
  r.endBlocks.map fun r => r.take 3 t

def openFlow (r : Reading) (t : Token) : Except Fault Reading :=
  r.saveKey.map fun r =>
    { r.take 1 t with flowLevel := r.flowLevel + 1, keyAllowed := true }

/-- A closing bracket, where a bracket is open. -/
def closeFlow (r : Reading) (t : Token) : Except Fault Reading :=
  if r.inFlow then
    r.dropKey.map fun r => { r.take 1 t with flowLevel := r.flowLevel - 1, keyAllowed := false }
  else .error .malformed

def flowEntry (r : Reading) : Except Fault Reading :=
  ({ r with keyAllowed := true } : Reading).dropKey.map fun r => r.take 1 .flowEntry

/-- Opens the block collection that an indicator outside brackets begins, where such
    an indicator may stand. -/
def beginBlock (r : Reading) (t : Token) : Except Fault Reading :=
  if r.inFlow then .ok r
  else if r.keyAllowed then .ok (r.openBlock r.cursor.column r.tokens.size t)
  else .error .malformed

def blockEntry (r : Reading) : Except Fault Reading := do
  let r ← r.beginBlock .blockSequence
  let r ← ({ r with keyAllowed := true } : Reading).dropKey
  return r.take 1 .blockEntry

/-- A question mark that announces a key. -/
def explicitKey (r : Reading) : Except Fault Reading := do
  let r ← r.beginBlock .blockMapping
  let r ← ({ r with keyAllowed := !r.inFlow } : Reading).dropKey
  return r.take 1 .key

/-- A colon: what was remembered becomes a key. -/
def value (r : Reading) : Except Fault Reading :=
  match r.keys.lookup r.flowLevel with
  | some k =>
    let r := { r with
      keys := r.keys.filter fun (level, _) => level != r.flowLevel
      tokens := r.tokens.insertIdxIfInBounds k.token .key
      keyAllowed := false }
    let r := if r.inFlow then r else r.openBlock k.column k.token .blockMapping
    .ok (r.take 1 .value)
  | none => do
    let r ← r.beginBlock .blockMapping
    let r ← ({ r with keyAllowed := !r.inFlow } : Reading).dropKey
    return r.take 1 .value

/-- The name behind the mark of an anchor or of a reference to one. -/
def named (r : Reading) (make : Text → Token) : Except Fault Reading := do
  let r ← r.saveKey
  let (name, c) := r.cursor.next.run isWordChar
  if name.isEmpty || !(isGapOrEnd c.peek || "?:,]\x7d%@`".text.contains c.peek) then .error .malformed
  else return { r with cursor := c, keyAllowed := false, tokens := r.tokens.push (make name) }

def tag (r : Reading) : Except Fault Reading := do
  let r ← r.saveKey
  let (handle, suffix, c) ← Tag.read r.cursor
  return { r with cursor := c, keyAllowed := false, tokens := r.tokens.push (.tag handle suffix) }

def blockScalar (r : Reading) (fold : Bool) : Except Fault Reading := do
  let r ← ({ r with keyAllowed := true } : Reading).dropKey
  let (text, c) ← Scalar.block fold r.indent r.cursor.next
  return { r with cursor := c, tokens := r.tokens.push (.scalar text false) }

def quotedScalar (r : Reading) (read : Text → Text → Cursor → Except Fault (Text × Cursor)) :
    Except Fault Reading := do
  let r ← r.saveKey
  let (text, c) ← read r.cursor.rest [] r.cursor.next
  return { r with cursor := c, keyAllowed := false, tokens := r.tokens.push (.scalar text false) }

def plainScalar (r : Reading) : Except Fault Reading := do
  let r ← r.saveKey
  let (text, ended, c) :=
    Scalar.plain r.inFlow (r.indent + 1) r.cursor.rest [] [] false r.cursor
  return { r with cursor := c, keyAllowed := ended, tokens := r.tokens.push (.scalar text true) }

/-- Whether a plain scalar may begin here. -/
def beginsPlain (r : Reading) : Bool :=
  let x := r.cursor.peek
  !(isGapOrEnd x || "-?:,[]\x7b\x7d#&*!|>'\"%@`".text.contains x) ||
    (!isGapOrEnd (r.cursor.peekAt 1) && (x == '-' || (!r.inFlow && (x == '?' || x == ':'))))

/-- The token that begins at the cursor, where the text is not at its end. -/
def token (r : Reading) : Except Fault Reading :=
  let c := r.cursor
  let x := c.peek
  let gapFollows := isGapOrEnd (c.peekAt 1)
  if x == '%' && c.column == 0 then r.directive
  else if c.column == 0 && c.isMark '-' then r.documentMark .documentStart
  else if c.column == 0 && c.isMark '.' then r.documentMark .documentEnd
  else if x == '[' then r.openFlow .flowSequence
  else if x == '\x7b' then r.openFlow .flowMapping
  else if x == ']' then r.closeFlow .flowSequenceEnd
  else if x == '\x7d' then r.closeFlow .flowMappingEnd
  else if x == ',' then r.flowEntry
  else if x == '-' && gapFollows then r.blockEntry
  else if x == '?' && (r.inFlow || gapFollows) then r.explicitKey
  else if x == ':' && (r.inFlow || gapFollows) then r.value
  else if x == '*' then r.named .reference
  else if x == '&' then r.named .anchor
  else if x == '!' then r.tag
  else if x == '|' && !r.inFlow then r.blockScalar false
  else if x == '>' && !r.inFlow then r.blockScalar true
  else if x == '\'' then r.quotedScalar Scalar.singleQuoted
  else if x == '"' then r.quotedScalar Scalar.doubleQuoted
  else if r.beginsPlain then r.plainScalar
  else .error .malformed

/-- Whether no token is left. -/
def isOver (r : Reading) : Bool := r.toNextToken.cursor.rest.isEmpty

/-- Past the next token, or past the end of all blocks where none is left. -/
def advance (r : Reading) : Except Fault Reading := do
  let r ← r.toNextToken.dropStaleKeys
  let r := r.unwind r.cursor.column
  if r.cursor.rest.isEmpty then (r.unwind (-1)).dropKey else r.token

/-- All tokens from here on; each takes a character at least. -/
def all : Nat → Reading → List Token
  | 0, r => r.certain ++ [.broken .malformed]
  | fuel + 1, r =>
    match r.advance with
    | .error f => r.certain ++ [.broken f]
    | .ok next => if r.isOver then next.tokens.toList else all fuel next

end Reading

/-- The tokens of a data text; it may hold only some characters. -/
def tokens (t : Text) : List Token :=
  if t.all isAllowed then Reading.all (t.length + 1) (.start t) else [.broken .malformed]

end Errand.Yaml
