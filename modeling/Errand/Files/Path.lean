/-
  Errand.Files.Path — paths as texts.

  A path that begins with a slash is absolute. Joining, cutting and normalising
  look at the text alone: the two dots of a normal form step back over a name,
  whatever that name stands for on a disk. Two slashes at the very beginning, but
  not three, are kept.
-/

import Errand.Text.Basic

namespace Errand.Path

/-- The parts between slashes. -/
def parts : Text → List Text
  | [] => [[]]
  | c :: rest =>
    match parts rest with
    | [] => [[c]]
    | part :: more => if c = '/' then [] :: part :: more else (c :: part) :: more

def isAbsolute (p : Text) : Bool := p.head? == some '/'

/-- `p` seen from the folder `base`. -/
def join (base p : Text) : Text :=
  if isAbsolute p then p
  else if base.isEmpty || base.getLast? == some '/' then base ++ p
  else base ++ "/".text ++ p

/-- What stands behind the last slash. -/
def fileName (p : Text) : Text := (p.reverse.takeWhile (· != CodePoint.char '/')).reverse

/-- What stands in front of the file name, without slashes at its end unless it
    has nothing else. -/
def folder (p : Text) : Text :=
  let head := (p.reverse.dropWhile (· != CodePoint.char '/')).reverse
  if head.all (· == CodePoint.char '/') then head else (head.reverse.dropWhile (· == CodePoint.char '/')).reverse

/-- A file name without its extension; dots at the beginning begin none. -/
def stem (name : Text) : Text :=
  let dots := name.takeWhile (· == CodePoint.char '.')
  let rest := name.dropWhile (· == CodePoint.char '.')
  if rest.contains '.' then
    dots ++ ((rest.reverse.dropWhile (· != CodePoint.char '.')).drop 1).reverse
  else name

/-- One part added to the names passed so far, the last one first. -/
def step (passed : List Text) (part : Text) : List Text :=
  if part.isEmpty || part = ".".text then passed
  else if part = "..".text then passed.drop 1
  else part :: passed

/-- The names on the way to an absolute path. -/
def names (p : Text) : List Text := ((parts p).foldl step []).reverse

/-- The slashes that the normal form of an absolute path begins with. -/
def rootOf (p : Text) : Text :=
  match p with
  | .char '/' :: .char '/' :: .char '/' :: _ => "/".text
  | .char '/' :: .char '/' :: _ => "//".text
  | _ => "/".text

/-- The absolute normal form of a path seen from the folder `base`, which is
    absolute. -/
def absolute (base p : Text) : Text :=
  let whole := join base p
  rootOf whole ++ Text.join "/".text (names whole)

end Errand.Path
