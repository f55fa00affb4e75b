/-
  Errand.Wildcard.Occurrence — the wildcards of a text, each with its number.

  A wildcard written without a number takes the next automatic one, an outer
  wildcard before those nested in it. Name and number make its keycode. In clauses
  and metadata a reference to that keycode stands where a wildcard was nested.
  Numbers taken before a fault stay taken.
-/

import Errand.Text.Alphabet
import Errand.Wildcard.Markup

namespace Errand

/-! ## Keycodes -/

/-- An integer in at least four characters, zeros behind the sign if any. -/
def fourDigits : Int → Text
  | .ofNat n => List.replicate (4 - (decimal n).length) (.char '0') ++ decimal n
  | .negSucc n => "-".text ++ (List.replicate (3 - (decimal (n + 1)).length) (.char '0') ++ decimal (n + 1))

/-- What identifies a wildcard. -/
def keycode (name : Text) (number : Int) : Text := name ++ fourDigits number

/-- What stands in a text for the wildcard with a keycode. -/
def reference (keycode : Text) : Text := "<<".text ++ keycode ++ ">>".text

/-- The keycode of the reference that begins here, and the text behind it. -/
def readReference? : Text → Option (Text × Text)
  | .char '<' :: .char '<' :: rest =>
    let name := rest.takeWhile Reader.isSmall
    let afterName := rest.dropWhile Reader.isSmall
    let number := afterName.takeWhile Text.isAnyDigit
    match afterName.dropWhile Text.isAnyDigit with
    | .char '>' :: .char '>' :: after =>
      if name.isEmpty || number.length < 4 then none else some (name ++ number, after)
    | _ => none
  | _ => none

theorem readReference?_length {t keycode after : Text} (h : readReference? t = some (keycode, after)) :
    after.length < t.length := by
  unfold readReference? at h
  split at h
  · rename_i rest
    have h₁ := Reader.length_dropWhile_le Reader.isSmall rest
    have h₂ := Reader.length_dropWhile_le Text.isAnyDigit (rest.dropWhile Reader.isSmall)
    simp only at h
    split at h
    · rename_i a hd
      rw [hd] at h₂
      split at h
      · simp at h
      · simp only [Option.some.injEq, Prod.mk.injEq] at h
        obtain ⟨_, rfl⟩ := h
        simp only [List.length_cons] at *
        omega
    · simp at h
  · simp at h

/-- The text before the first reference, and the keycode of each reference with
    the text behind it. -/
def cutReferences : Text → Text × List (Text × Text)
  | [] => ([], [])
  | c :: rest =>
    match _h : readReference? (c :: rest) with
    | some (keycode, after) =>
      let (first, more) := cutReferences after
      ([], (keycode, first) :: more)
    | none =>
      let (first, more) := cutReferences rest
      (c :: first, more)
termination_by t => t.length
decreasing_by
  · exact readReference?_length _h
  · simp

/-- The keycodes of all references in a text, in order. -/
def references (t : Text) : List Text := (cutReferences t).2.map (·.1)

/-- The text with something else for each reference. -/
def replaceReferences (new : Text → Text) (t : Text) : Text :=
  let (first, more) := cutReferences t
  first ++ more.flatMap fun (keycode, after) => new keycode ++ after

/-! ## Occurrences -/

/-- One wildcard where it is written. -/
structure Occurrence where
  name : Text
  obfuscated : Bool
  subtype : Option Text
  number : Int
  /-- Not empty if there is one. -/
  clause : Option Text
  metadata : Option Text
  /-- Where it begins and ends in the text it is written in. -/
  start : Nat
  stop : Nat
  /-- What is written there. -/
  text : Text
  nested : Bool
  deriving DecidableEq, Repr

namespace Occurrence

/-- The names a wildcard may have to stand for something. -/
def knownNames : List Text :=
  ["object", "aobject", "kobject", "location", "beacon", "placement", "room", "name", "male",
    "female", "category", "gesture", "question", "pron", "void"].map String.text

def keycode (w : Occurrence) : Text := Errand.keycode w.name w.number

def isKnown (w : Occurrence) : Bool := knownNames.contains w.name

def summary (w : Occurrence) : Text :=
  "TextWildcard(".text ++ Text.shown w.text ++ ", keycode=".text ++ Text.shown w.keycode ++ ")".text

end Occurrence

/-! ## Scanning -/

/-- What was found in a text: the text with references for its wildcards, the
    wildcards written in it directly, and all of them, an outer one before those
    nested in it. -/
structure Found where
  text : Text
  direct : List Occurrence
  all : List Occurrence

/-- A scan that takes automatic numbers and may end in a fault. -/
abbrev Scan := ExceptT MarkerFault (StateM Int)

namespace Markup

/-- The number a marker has, or the next automatic one. -/
def numberOf (m : Marker) : Scan Int :=
  match m.number with
  | some n => pure n
  | none => modifyGet fun next => (next, next + 1)

/-- The occurrence of a marker, given its number and what its clause and metadata
    have become. -/
def occurrence (m : Marker) (place : Nat) (nested : Bool) (number : Int) (clause metadata : Text) :
    Occurrence :=
  { name := m.name
    obfuscated := m.obfuscated
    subtype := m.subtype
    number
    clause := match m.clause, Text.trim clause with
      | none, _ | some _, [] => none
      | some _, clause => some clause
    metadata := m.metadata.map fun _ => Text.trim metadata
    start := place
    stop := place + m.text.length
    text := m.text
    nested }

/-- Gives the wildcards their numbers. -/
def number (nested : Bool) : Markup → Scan Found
  | done => pure ⟨[], [], []⟩
  | fault f => throw f
  | char c rest => do
    let r ← number nested rest
    return ⟨c :: r.text, r.direct, r.all⟩
  | marker m place clause metadata rest => do
    let n ← numberOf m
    let c ← number true clause
    let d ← number true metadata
    let w := occurrence m place nested n c.text d.text
    let r ← number nested rest
    return ⟨reference w.keycode ++ r.text, w :: r.direct, w :: c.all ++ d.all ++ r.all⟩

end Markup

/-- The wildcards of a text. -/
def scan (t : Text) : Scan Found := (Markup.read .sentence 0 t).number false

end Errand
