/-
  Errand.Yaml.Tag — tags: the kind of data that a node is said to be.

  A tag is written as a handle, which a directive may define, and a suffix behind
  it, or in full between angle brackets. A lone exclamation mark leaves the kind
  to the letters of a scalar. In a suffix, bytes may stand as two hexadecimal
  digits behind a percent sign; together they must be UTF-8.
-/

import Errand.Yaml.Scalar

namespace Errand.Yaml

inductive Tag where
  | null
  | truth
  | integer
  | real
  | bytes
  | moment
  | text
  | sequence
  | mapping
  | set
  /-- A sequence of pairs, with or without an order that counts. -/
  | pairs
  /-- A key under which mappings are merged in. -/
  | merge
  /-- A key under which a mapping holds the scalar it stands for. -/
  | standIn
  /-- A kind that nothing is known of. -/
  | unknown
  deriving DecidableEq, Repr, Inhabited

namespace Tag

/-! ## Names -/

/-- What the full names of the known kinds begin with. -/
def family : String := "tag:yaml.org,2002:"

/-- The known kinds by their names. -/
def known : List (String × Tag) :=
  [("null", .null), ("bool", .truth), ("int", .integer), ("float", .real), ("binary", .bytes),
    ("timestamp", .moment), ("str", .text), ("seq", .sequence), ("map", .mapping), ("set", .set),
    ("omap", .pairs), ("pairs", .pairs), ("merge", .merge), ("value", .standIn)]

/-- The kind with a full name. -/
def ofName (name : Text) : Tag :=
  ((known.find? fun (short, _) => (family ++ short).text == name).map Prod.snd).getD .unknown

/-- The handles that every document has, and what they stand for. -/
def handles : List (Text × Text) := [("!".text, "!".text), ("!!".text, family.text)]

/-! ## Written tags -/

def isSuffixChar (c : CodePoint) : Bool := c.isAlphanum || "-;/?:@&=+$,_.!~*'()[]%".text.contains c

/-- The text of bytes in UTF-8. -/
def decoded? (bytes : List UInt8) : Option Text :=
  (String.fromUTF8? ⟨bytes.toArray⟩).map String.text

/-- A suffix with its bytes decoded; `bytes` are those read since the last
    character. -/
def unescaped? (bytes : List UInt8) : Text → Option Text
  | .char '%' :: a :: b :: rest => do
    let high ← Scalar.hexValue? a
    let low ← Scalar.hexValue? b
    unescaped? (bytes ++ [UInt8.ofNat (16 * high + low)]) rest
  | .char '%' :: _ => none
  | c :: rest => do
    let before ← decoded? bytes
    let behind ← unescaped? [] rest
    return before ++ c :: behind
  | [] => decoded? bytes

/-- A suffix, which is not empty. -/
def suffix (c : Cursor) : Except Fault (Text × Cursor) :=
  let (found, c) := c.run isSuffixChar
  match unescaped? [] found with
  | some t => if found.isEmpty then .error .malformed else .ok (t, c)
  | none => .error .malformed

/-- A handle: an exclamation mark, or a word between two of them. -/
def handle (c : Cursor) : Except Fault (Text × Cursor) :=
  if c.peek != '!' then .error .malformed
  else if c.peekAt 1 == ' ' then .ok ("!".text, c.next)
  else
    let (name, after) := c.next.run isWordChar
    if after.peek == '!' then .ok ("!".text ++ name ++ "!".text, after.next) else .error .malformed

/-- Whether a second exclamation mark stands in front of the next space. -/
def hasHandle (c : Cursor) : Bool :=
  ((c.rest.drop 1).takeWhile fun x => !isSpaceBreakOrEnd x).contains '!'

/-- The handle of a tag, if it is not written in full, and its suffix. -/
def parts (c : Cursor) : Except Fault (Option Text × Text × Cursor) := do
  if c.peekAt 1 == '<' then
    let (name, c) ← suffix (c.skip 2)
    if c.peek == '>' then return (none, name, c.next) else .error .malformed
  else if isGapOrEnd (c.peekAt 1) then return (none, "!".text, c.next)
  else
    let (start, c) ← if hasHandle c then handle c else .ok ("!".text, c.next)
    let (rest, c) ← suffix c
    return (some start, rest, c)

/-- A tag at the cursor; a space or the end of the line must follow it. -/
def read (c : Cursor) : Except Fault (Option Text × Text × Cursor) := do
  let (start, rest, c) ← parts c
  if isSpaceBreakOrEnd c.peek then return (start, rest, c) else .error .malformed

end Tag

end Errand.Yaml
