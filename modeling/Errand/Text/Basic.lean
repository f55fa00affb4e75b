/-
  Errand.Text.Basic — texts as sequences of code points.

  Every name, rule, sentence and clause of the library is such a sequence, so a
  position is a number of code points and a proof about a text is an induction
  on a list.

  Here: which characters are blank, trimming, the lines of a text, places in it,
  joining and replacing. Blank are the 25 characters with the property White_Space and the
  four information separators U+001C to U+001F.
-/

import Errand.Text.CodePoint

namespace Errand

namespace Text

/-! ## Blank characters and trimming -/

/-- The property White_Space, and the information separators. -/
def isBlank (c : CodePoint) : Bool :=
  let n := c.toNat
  n == 0x20 || (0x09 ≤ n && n ≤ 0x0D) || (0x1C ≤ n && n ≤ 0x1F) || n == 0x85 || n == 0xA0 ||
    n == 0x1680 || (0x2000 ≤ n && n ≤ 0x200A) || n == 0x2028 || n == 0x2029 || n == 0x202F ||
    n == 0x205F || n == 0x3000

def trimLeft (t : Text) : Text := t.dropWhile isBlank

def trimRight (t : Text) : Text := (t.reverse.dropWhile isBlank).reverse

/-- The text without the blanks at its two ends. -/
def trim (t : Text) : Text := trimRight (trimLeft t)

theorem trim_sublist (t : Text) : (trim t).Sublist t := by
  have h : ((trimLeft t).reverse.dropWhile isBlank).reverse.Sublist (trimLeft t) := by
    simpa using (List.dropWhile_sublist (l := (trimLeft t).reverse) isBlank).reverse
  exact h.trans (List.dropWhile_sublist isBlank)

/-- The text without the characters of a class at its two ends. -/
def stripAll (p : CodePoint → Bool) (t : Text) : Text :=
  ((t.dropWhile p).reverse.dropWhile p).reverse

/-! ## Lines -/

/-- The characters that end a line; a carriage return and a line feed in a row
    end it once. -/
def isLineBreak (c : CodePoint) : Bool :=
  let n := c.toNat
  (0x0A ≤ n && n ≤ 0x0D) || (0x1C ≤ n && n ≤ 0x1E) || n == 0x85 || n == 0x2028 || n == 0x2029

/-- The lines of a text without their line breaks; a break at the very end
    starts no further line. -/
def lines : Text → List Text
  | [] => []
  | .char '\r' :: .char '\n' :: rest => [] :: lines rest
  | c :: rest =>
    if isLineBreak c then [] :: lines rest
    else match lines rest with
      | [] => [[c]]
      | line :: more => (c :: line) :: more

/-! ## Places -/

/-- What a reader meets from a place on. A place below zero counts from the end, and
    behind the end the text begins again; nothing stands before its start. -/
def readFrom? (t : Text) (place : Int) : Option Text :=
  if 0 ≤ place then some (t.drop place.toNat)
  else if place.natAbs ≤ t.length then some (t.drop (t.length - place.natAbs) ++ t)
  else none

/-- The place that a number stands for, which counts from the end if below zero. -/
def place (t : Text) (n : Int) : Nat := (if n < 0 then t.length + n else n).toNat

/-- The part between two places. -/
def part (t : Text) (start stop : Int) : Text := (t.take (t.place stop)).drop (t.place start)

/-! ## Segments -/

/-- A character in front of the first segment. -/
def consFirst (c : CodePoint) : Text × List Text → Text × List Text
  | (first, more) => (c :: first, more)

/-- An empty segment in front of the first one. -/
def startSegment : Text × List Text → Text × List Text
  | (first, more) => ([], first :: more)

/-! ## Joining and replacing -/

/-- The parts in order, `separator` between two neighbours. -/
def join (separator : Text) (parts : List Text) : Text := (parts.intersperse separator).flatten

theorem join_singleton (separator a : Text) : join separator [a] = a := List.append_nil a

theorem join_cons_cons (separator a b : Text) (more : List Text) :
    join separator (a :: b :: more) = a ++ separator ++ join separator (b :: more) := by
  rw [join, List.intersperse_cons_cons, List.flatten_cons, List.flatten_cons, List.append_assoc]
  rfl

theorem join_append {separator : Text} {as bs : List Text} (ha : as ≠ []) (hb : bs ≠ []) :
    join separator (as ++ bs) = join separator as ++ separator ++ join separator bs := by
  induction as with
  | nil => exact absurd rfl ha
  | cons a as ih =>
    rcases as with _ | ⟨a', as⟩
    · obtain ⟨b, bs, rfl⟩ := List.exists_cons_of_ne_nil hb
      rw [List.singleton_append, join_cons_cons, join_singleton]
    · rw [List.cons_append, List.cons_append, join_cons_cons, ← List.cons_append, ih (List.cons_ne_nil _ _),
        join_cons_cons]
      simp only [List.append_assoc]

/-- The loop of `replaceAll`: `skip` characters still belong to a place already
    replaced. -/
def replaceFrom (old new : Text) : Nat → Text → Text
  | _, [] => []
  | skip + 1, _ :: rest => replaceFrom old new skip rest
  | 0, c :: rest =>
    if old.isPrefixOf (c :: rest) then new ++ replaceFrom old new (old.length - 1) rest
    else c :: replaceFrom old new 0 rest

/-- Each place where `old` (not empty) stands is replaced by `new`, from left to
    right; what was put in is not looked at again. -/
def replaceAll (old new t : Text) : Text := replaceFrom old new 0 t

/-- One character for another, everywhere. -/
def replaceChar (c : CodePoint) (new t : Text) : Text := t.flatMap fun x => if x = c then new else [x]

/-- Whether the text ends in `ending`. -/
def endsWith (ending t : Text) : Bool := ending.isSuffixOf t

end Text

/-- A natural number in decimal digits. -/
def decimal (n : Nat) : Text := (toString n).text

/-- An integer in decimal digits, a minus sign in front of a negative one. -/
def signedDecimal (n : Int) : Text :=
  match n with
  | .ofNat k => decimal k
  | .negSucc k => '-' :: decimal (k + 1)

end Errand
