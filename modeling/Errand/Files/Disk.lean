/-
  Errand.Files.Disk — files and folders as a value.

  A disk lists what stands at absolute paths, each given by its names. A path is
  walked as written: every name on the way must be there and be a folder before
  the next part of the path counts, also before two dots step back. What is not
  there or not of the right kind is a fault with the message of the system.
-/

import Errand.Files.Path
import Errand.Text.Display

namespace Errand

/-- The bytes of a file, or a folder. -/
inductive DiskItem where
  | file (bytes : ByteArray)
  | folder

structure Disk where
  items : List (List Text × DiskItem)
  /-- The current folder, an absolute path. -/
  current : Text
  /-- The folder that holds the bundled grammars and entities. -/
  home : Text

/-! ## Faults -/

inductive DiskFault where
  | notFound
  | notFolder
  | isFolder
  /-- A path, or a name in it, has more bytes than any may have. -/
  | tooLong
  /-- The path has a null character in it. -/
  | invalidPath
  /-- The path has half of a surrogate pair in it, which stands for no byte. -/
  | unencodable
  /-- The bytes are no text. -/
  | undecodable
  deriving DecidableEq, Repr

namespace DiskFault

/-- Whether the system itself reports the fault. -/
def isSystemFault : DiskFault → Bool
  | .notFound | .notFolder | .isFolder | .tooLong => true
  | _ => false

/-- The system's report about a path. -/
def message (f : DiskFault) (path : Text) : Text :=
  (match f with
    | .notFound => "[Errno 2] No such file or directory: ".text
    | .notFolder => "[Errno 20] Not a directory: ".text
    | .isFolder => "[Errno 21] Is a directory: ".text
    | .tooLong => "[Errno 36] File name too long: ".text
    | .invalidPath => "embedded null character in ".text
    | .unencodable => "no bytes for ".text
    | .undecodable => "no UTF-8 in ".text) ++ Text.shown path

end DiskFault

namespace Disk

/-! ## Items -/

def itemAt? (d : Disk) (names : List Text) : Option DiskItem :=
  if names.isEmpty then some .folder else d.items.lookup names

/-- The names of what a folder holds. -/
def namesIn (d : Disk) (folder : List Text) : List Text :=
  d.items.filterMap fun (names, _) =>
    if names.dropLast = folder then names.getLast? else none

/-! ## Walking -/

/-- The most bytes of one name. -/
def maxNameSize : Nat := 255

/-- The most bytes of a whole path. -/
def maxPathSize : Nat := 4095

/-- At least as many as the paths of that size, since no code point takes less than a byte. -/
def pathCount : Nat := Nat.pow (CodePoint.count + 1) maxPathSize

/-- The bytes that a code point of a path stands for. Halves of surrogate pairs stand
    for none, but for those that stand for a byte each which is no UTF-8. -/
def bytesOf? : CodePoint → Option (List UInt8)
  | .char c => some (String.singleton c).toUTF8.toList
  | .half offset =>
    let n := CodePoint.toNat (.half offset)
    if 0xDC80 ≤ n ∧ n ≤ 0xDCFF then some [UInt8.ofNat n] else none

def isEncodable (c : CodePoint) : Bool := (bytesOf? c).isSome

/-- The bytes of a path or a name in it. -/
def encoded (t : Text) : List UInt8 := t.flatMap fun c => (bytesOf? c).getD []

def byteSize (t : Text) : Nat := (encoded t).length

/-- The character that bytes begin with in UTF-8, if there is one, and how many bytes
    it has. -/
def firstCharacter? (bytes : List UInt8) : Option (Char × Nat) :=
  [1, 2, 3, 4].findSome? fun n =>
    if n ≤ bytes.length then
      match (String.fromUTF8? ⟨(bytes.take n).toArray⟩).map String.toList with
      | some [c] => some (c, n)
      | _ => none
    else none

/-- The loop of `decoded`: `skip` bytes still belong to the last character. -/
def decodedFrom : Nat → List UInt8 → Text
  | _, [] => []
  | skip + 1, _ :: rest => decodedFrom skip rest
  | 0, b :: rest =>
    match firstCharacter? (b :: rest) with
    | some (c, n) => c :: decodedFrom (n - 1) rest
    | none => CodePoint.ofNat (0xDC00 + b.toNat) :: decodedFrom 0 rest

/-- The name with given bytes. A byte that is no UTF-8 becomes half of a surrogate
    pair. -/
def decoded (bytes : List UInt8) : Text := decodedFrom 0 bytes

/-- The one spelling that all names with the same bytes have. -/
def spelling (name : Text) : Text :=
  if name.all fun c => c.toNat < CodePoint.firstHalf then name else decoded (encoded name)

/-- From the item at `place` along parts of a path. -/
def walk (d : Disk) : (place : List Text) → (parts : List Text) → Except DiskFault (List Text)
  | place, [] => .ok place
  | place, part :: rest =>
    match d.itemAt? place with
    | none => .error .notFound
    | some (.file _) => .error .notFolder
    | some .folder =>
      if part.isEmpty || part = ".".text then walk d place rest
      else if part = "..".text then walk d place.dropLast rest
      else if maxNameSize < byteSize part then .error .tooLong
      else match d.itemAt? (place ++ [part]) with
        | none => .error .notFound
        | some _ => walk d (place ++ [part]) rest

/-- The place that a path leads to. -/
def resolve (d : Disk) (path : Text) : Except DiskFault (List Text) :=
  if !path.all isEncodable then .error .unencodable
  else if path.contains '\x00' then .error .invalidPath
  else if path.isEmpty then .error .notFound
  else if maxPathSize < byteSize path then .error .tooLong
  else d.walk (if Path.isAbsolute path then [] else Path.names d.current) ((Path.parts path).map spelling)

/-! ## Reading -/

def isFile (d : Disk) (path : Text) : Bool :=
  match d.resolve path with
  | .ok place => match d.itemAt? place with
    | some (.file _) => true
    | _ => false
  | .error _ => false

def bytes (d : Disk) (path : Text) : Except DiskFault ByteArray :=
  match d.resolve path with
  | .error f => .error f
  | .ok place => match d.itemAt? place with
    | some (.file bytes) => .ok bytes
    | some .folder => .error .isFolder
    | none => .error .notFound

/-- A line feed for every line break that is a carriage return. -/
def plainBreaks : Text → Text
  | [] => []
  | .char '\r' :: .char '\n' :: rest => '\n' :: plainBreaks rest
  | c :: rest => (if c = '\r' then '\n' else c) :: plainBreaks rest

/-- The text of a file in UTF-8; its lines end in line feeds. -/
def text (d : Disk) (path : Text) : Except DiskFault Text :=
  match d.bytes path with
  | .error f => .error f
  | .ok bytes => match String.fromUTF8? bytes with
    | some s => .ok (plainBreaks s.text)
    | none => .error .undecodable

/-- The names in a folder. -/
def list (d : Disk) (path : Text) : Except DiskFault (List Text) :=
  match d.resolve path with
  | .error f => .error f
  | .ok place => match d.itemAt? place with
    | some .folder => .ok (d.namesIn place)
    | some (.file _) => .error .notFolder
    | none => .error .notFound

/-! ## Changing -/

/-- Puts an item at a place, in front of which all folders are made. -/
def put (d : Disk) (names : List Text) (item : DiskItem) : Disk :=
  let above := ((List.range names.length).map fun n => names.take n).filter fun p =>
    !p.isEmpty && (d.items.lookup p).isNone
  { d with items := (d.items.filter fun (p, _) => p != names) ++
      above.map (fun p => (p, DiskItem.folder)) ++ [(names, item)] }

/-- The place of a path seen from the current folder. -/
def placeOf (d : Disk) (path : Text) : List Text :=
  (Path.names (Path.join d.current path)).map spelling

/-- Writes a file at a path seen from the current folder. -/
def write (d : Disk) (path : Text) (bytes : ByteArray) : Disk := d.put (d.placeOf path) (.file bytes)

def makeFolder (d : Disk) (path : Text) : Disk :=
  let names := d.placeOf path
  if (d.itemAt? names).isSome then d else d.put names .folder

/-- Takes a file away. -/
def remove (d : Disk) (path : Text) : Except DiskFault Disk :=
  match d.resolve path with
  | .error f => .error f
  | .ok place => match d.itemAt? place with
    | some .folder => .error .isFolder
    | _ => .ok { d with items := d.items.filter fun (p, _) => p != place }

end Disk

end Errand
