/-
  Errand.Text.Case — the small form of a text.

  Each capital has one small letter, with two exceptions: the dotted capital I
  becomes a small i and a dot above, and a capital sigma becomes the final sigma
  where it ends a word. Marks, modifiers and apostrophes do not count when one
  asks what stands beside the sigma.
-/

import Errand.Text.Basic
import Errand.Text.CaseTable

namespace Errand.Text

def isCased (c : CodePoint) : Bool :=
  if c.toNat < 128 then c.isAlpha
  else casedRanges.any fun (first, last) => first ≤ c.toNat && c.toNat ≤ last

/-- Whether a character is passed over when one looks for its cased neighbour. -/
def isPassedOver (c : CodePoint) : Bool :=
  passedRanges.any fun (first, last) => first ≤ c.toNat && c.toNat ≤ last

/-- Whether a letter ends a word: before it (nearest first) stands a cased
    character, after it none. -/
def endsWord (before after : Text) : Bool :=
  (match before.dropWhile isPassedOver with
    | c :: _ => isCased c
    | [] => false) &&
  (match after.dropWhile isPassedOver with
    | c :: _ => !isCased c
    | [] => true)

/-- The small form of one character other than a sigma. -/
def smallChar (c : CodePoint) : Text :=
  let n := c.toNat
  if n < 128 then [c.toLower]
  else if n = 0x130 then "i\u0307".text
  else match smallRuns.find? fun (first, last, step, _) =>
      first ≤ n && n ≤ last && (n - first) % step == 0 with
    | some (_, _, _, offset) => [CodePoint.ofNat (n + offset).toNat]
    | none => [c]

/-- The loop of `lower`; `before` is what was passed, nearest first. -/
def lowerFrom (before : Text) : Text → Text
  | [] => []
  | c :: rest =>
    (if c = 'Σ' then (if endsWord before rest then "ς".text else "σ".text) else smallChar c) ++
      lowerFrom (c :: before) rest

/-- The small form of a text. -/
def lower (t : Text) : Text := lowerFrom [] t

/-- The capitals a text has among the letters A to Z; two small letters outside
    them, the dotless i and the long s, have theirs there too. -/
def basicCapital (c : CodePoint) : CodePoint :=
  if c = 'ı' then 'I' else if c = 'ſ' then 'S' else c.toUpper

end Errand.Text
