/-
  Errand.Proofs.Wildcard.Printing — wildcards written and read again.

  A wildcard is written with its fields in order, a space in front of each, and brackets and
  backslashes of its metadata escaped (`printed`). A scan reads it back, whatever stands
  around it (`scan_printed`). Each reader of a marker is shown to take its own field and to
  leave the next one alone; what is behind a field, or behind all of them, never looks like
  more of it.
-/

import Errand.Proofs.Text.Trimming
import Errand.Proofs.Wildcard.Clauses
import Errand.Proofs.Wildcard.Keycodes
import Errand.Proofs.Wildcard.Plain
import Mathlib.Data.Nat.Digits.Defs

namespace Errand

/-! ## Writing -/

namespace MarkerHead

def printedSubtype (subtype : Option Text) : Text := (subtype.map fun word => " ".text ++ word).getD []

def printedNumber (number : Option Nat) : Text := (number.map fun n => " ".text ++ decimal n).getD []

def printed (h : MarkerHead) : Text :=
  h.name ++ (if h.obfuscated then "?".text else []) ++ printedSubtype h.subtype ++ printedNumber h.number

/-- What can be written so that it is read again. -/
structure Printable (h : MarkerHead) : Prop where
  named : h.name ≠ []
  small : Small h.name
  subtype : ∀ word ∈ h.subtype, word ≠ [] ∧ Small word ∧ isReserved word = false
  number : ∀ n ∈ h.number, n < firstAutomatic

end MarkerHead

namespace MarkerBody

/-- A backslash in front of each bracket and backslash. -/
def escapedMetadata (t : Text) : Text := t.flatMap fun c => if Markup.isUnescaped c then [.char '\\', c] else [c]

def printedClause (clause : Option Text) : Text := (clause.map fun w => " where ".text ++ w).getD []

def printedMetadata (metadata : Option Text) : Text :=
  (metadata.map fun m => " meta: ".text ++ escapedMetadata m).getD []

def printed (b : MarkerBody) : Text := printedClause b.clause ++ printedMetadata b.metadata

/-- Any metadata, and any clause without an opening bracket. -/
structure Printable (b : MarkerBody) : Prop where
  parsed : ∀ w ∈ b.clause, ∃ c, Where.parse w = .ok c
  unopened : ∀ w ∈ b.clause, .char '\x7b' ∉ w

end MarkerBody

/-- A wildcard as one writes it. -/
def printed (h : MarkerHead) (b : MarkerBody) : Text :=
  .char '\x7b' :: (h.printed ++ b.printed ++ [.char '\x7d'])

/-! ## Reading the head -/

namespace MarkerHead

/-- What no field of the head goes on with. -/
structure Ends (r : Text) : Prop where
  unsmall : ∀ c ∈ r.head?, Reader.isSmall c = false
  unmarked : ∀ c ∈ r.head?, c ≠ '?'
  undigit : ∀ c ∈ r.head?, Reader.isDigit c = false
  /-- It is nothing either when the spaces in front are gone. -/
  subtypeless : readSubtype (Reader.dropSpaces r) = (none, Reader.dropSpaces r)
  numberless : readNumber? (Reader.dropSpaces r) = some (none, Reader.dropSpaces r)

theorem dropSpaces_of_head {t : Text} (h : ∀ c ∈ t.head?, Reader.isSpace c = false) : Reader.dropSpaces t = t :=
  Text.dropWhile_of_head h

theorem dropSpaces_dropSpaces (t : Text) : Reader.dropSpaces (Reader.dropSpaces t) = Reader.dropSpaces t :=
  dropSpaces_of_head (Text.head_dropWhile _ t)

theorem dropSpaces_space (t : Text) : Reader.dropSpaces (" ".text ++ t) = Reader.dropSpaces t := rfl

theorem head_cons {p : CodePoint → Prop} {c : CodePoint} (h : p c) (t : Text) : ∀ d ∈ (c :: t).head?, p d := by
  intro d hd
  cases hd
  exact h

/-- The first character of a text that has one. -/
theorem head_append {p : CodePoint → Bool} {b : Bool} {t : Text} (hne : t ≠ []) (h : ∀ c ∈ t, p c = b) (u : Text) :
    ∀ c ∈ (t ++ u).head?, p c = b := by
  obtain ⟨d, rest, rfl⟩ := List.exists_cons_of_ne_nil hne
  intro c hc
  cases hc
  exact h d List.mem_cons_self

theorem dropSpaces_printedNumber (n : Nat) (r : Text) :
    Reader.dropSpaces (printedNumber (some n) ++ r) = decimal n ++ r := by
  rw [printedNumber, Option.map_some, Option.getD_some, List.append_assoc, dropSpaces_space, dropSpaces_of_head]
  exact head_append (decimal_ne_nil n) (fun c hc => Reader.not_space_of_digit (isDigit_of_decimal hc)) r

theorem smallRun_append {word r : Text} (hword : Small word) (hr : ∀ c ∈ r.head?, Reader.isSmall c = false) :
    Reader.smallRun (word ++ r) = (word, r) := by
  rw [Reader.smallRun, Text.takeWhile_run hword hr, Text.dropWhile_run hword hr]

theorem readNumber_printed {number : Option Nat} (hn : ∀ n ∈ number, n < firstAutomatic) {r : Text} (hr : Ends r) :
    ∃ after, readNumber? (Reader.dropSpaces (printedNumber number ++ r)) = some (number, after) ∧
      Reader.dropSpaces after = Reader.dropSpaces r := by
  cases number with
  | none => exact ⟨Reader.dropSpaces r, hr.numberless, dropSpaces_dropSpaces r⟩
  | some n =>
    have hdigits : ∀ c ∈ decimal n, Reader.isDigit c = true := fun c hc => isDigit_of_decimal hc
    have htake : (decimal n ++ r).takeWhile Reader.isDigit = decimal n := Text.takeWhile_run hdigits hr.undigit
    have hdrop : (decimal n ++ r).dropWhile Reader.isDigit = r := Text.dropWhile_run hdigits hr.undigit
    have hfits : ((decimal n).isEmpty || decide (maxDigits < (decimal n).length)) = false := by
      have hlength : (decimal n).length ≤ maxDigits := by
        rw [decimal_eq, List.length_map]
        exact Nat.toDigits_length 10 n maxDigits (by decide) (Nat.lt_of_lt_of_le (hn n rfl) (by decide))
      rw [List.isEmpty_eq_false_iff.mpr (decimal_ne_nil n), decide_eq_false (Nat.not_lt.mpr hlength)]
      rfl
    have hread : Reader.digits? maxDigits (decimal n ++ r) = some (decimal n, r) := by
      rw [Reader.digits?, htake, hdrop, hfits]
      rfl
    refine ⟨r, ?_, rfl⟩
    rw [dropSpaces_printedNumber, readNumber?, hread]
    dsimp only
    rw [value_decimal]

theorem readSubtype_printed {subtype : Option Text}
    (hs : ∀ word ∈ subtype, word ≠ [] ∧ Small word ∧ isReserved word = false) {r : Text}
    (hsmall : ∀ c ∈ r.head?, Reader.isSmall c = false)
    (hnone : readSubtype (Reader.dropSpaces r) = (none, Reader.dropSpaces r)) :
    ∃ after, readSubtype (Reader.dropSpaces (printedSubtype subtype ++ r)) = (subtype, after) ∧
      Reader.dropSpaces after = Reader.dropSpaces r := by
  cases subtype with
  | none => exact ⟨Reader.dropSpaces r, hnone, dropSpaces_dropSpaces r⟩
  | some word =>
    obtain ⟨hne, hword, hreserved⟩ := hs word rfl
    have hspace : Reader.dropSpaces (printedSubtype (some word) ++ r) = word ++ r := by
      rw [printedSubtype, Option.map_some, Option.getD_some, List.append_assoc, dropSpaces_space, dropSpaces_of_head]
      exact head_append hne (fun c hc => Reader.not_space_of_small (hword c hc)) r
    have hrun := smallRun_append hword hsmall
    refine ⟨r, ?_, rfl⟩
    obtain ⟨c, letters, rfl⟩ := List.exists_cons_of_ne_nil hne
    rw [hspace, readSubtype, hrun]
    simp [hreserved]

/-- With a number in front it is the end of the fields before that just as well. -/
theorem Ends.numbered {r : Text} (hr : Ends r) (number : Option Nat) :
    (∀ c ∈ (printedNumber number ++ r).head?, Reader.isSmall c = false ∧ c ≠ '?') ∧
      readSubtype (Reader.dropSpaces (printedNumber number ++ r)) =
        (none, Reader.dropSpaces (printedNumber number ++ r)) := by
  cases number with
  | none => exact ⟨fun c hc => ⟨hr.unsmall c hc, hr.unmarked c hc⟩, hr.subtypeless⟩
  | some n =>
    refine ⟨?_, ?_⟩
    · intro c hc
      cases hc
      decide
    · obtain ⟨d, digits, hd⟩ := List.exists_cons_of_ne_nil (decimal_ne_nil n)
      have hsmall : Reader.isSmall d = false :=
        Reader.not_small_of_digit (isDigit_of_decimal (n := n) (hd ▸ List.mem_cons_self))
      rw [dropSpaces_printedNumber, hd, List.cons_append, readSubtype, Reader.smallRun, List.takeWhile_cons_of_neg (by simp [hsmall])]

/-- A subtype in front does not go on with the name either. -/
theorem head_subtype (subtype : Option Text) {r : Text}
    (hr : ∀ c ∈ r.head?, Reader.isSmall c = false ∧ c ≠ '?') :
    ∀ c ∈ (printedSubtype subtype ++ r).head?, Reader.isSmall c = false ∧ c ≠ '?' := by
  cases subtype with
  | none => exact hr
  | some word =>
    intro c hc
    cases hc
    decide

/-- The mark is read if there is one. -/
theorem readMark_printed (obfuscated : Bool) {r : Text} (hr : ∀ c ∈ r.head?, c ≠ '?') :
    readMark ((if obfuscated then "?".text else []) ++ r) = (obfuscated, r) := by
  cases obfuscated with
  | true => rfl
  | false =>
    rcases r with _ | ⟨c, r⟩
    · rfl
    · have hc : c ≠ '?' := hr c rfl
      show readMark (c :: r) = _
      rw [readMark, Reader.char?, if_neg hc]

/-- The head is read back, up to spaces. -/
theorem read_printed {h : MarkerHead} (hh : h.Printable) {r : Text} (hr : Ends r) :
    ∃ after, read (h.printed ++ r) = .ok (some (h, after)) ∧ Reader.dropSpaces after = Reader.dropSpaces r := by
  obtain ⟨hends, hsubtypeless⟩ := hr.numbered h.number
  obtain ⟨after, hnumber, hafter⟩ := readNumber_printed hh.number hr
  obtain ⟨after', hsubtype, hafter'⟩ := readSubtype_printed hh.subtype (fun c hc => (hends c hc).1) hsubtypeless
  have hends' := head_subtype h.subtype hends
  have hmark := readMark_printed h.obfuscated (fun c hc => (hends' c hc).2)
  have hmarked : ∀ c ∈ ((if h.obfuscated then "?".text else []) ++
      (printedSubtype h.subtype ++ (printedNumber h.number ++ r))).head?, Reader.isSmall c = false := by
    cases h.obfuscated with
    | true =>
      intro c hc
      cases hc
      decide
    | false => exact fun c hc => (hends' c hc).1
  have htext : h.printed ++ r = h.name ++ ((if h.obfuscated then "?".text else []) ++
      (printedSubtype h.subtype ++ (printedNumber h.number ++ r))) := by
    simp only [printed, List.append_assoc]
  have hname : Reader.smallRun (Reader.dropSpaces (h.printed ++ r)) = (h.name, (if h.obfuscated then "?".text else []) ++
      (printedSubtype h.subtype ++ (printedNumber h.number ++ r))) := by
    rw [htext, dropSpaces_of_head (head_append hh.named (fun c hc => Reader.not_space_of_small (hh.small c hc)) _)]
    exact smallRun_append hh.small hmarked
  obtain ⟨c, letters, hcons⟩ := List.exists_cons_of_ne_nil hh.named
  refine ⟨after, ?_, hafter⟩
  rw [read]
  simp only [hname, hmark, hsubtype, hafter', hnumber, hcons]
  rw [← hcons]

end MarkerHead

/-! ## Reading the body -/

namespace MarkerBody
open Errand.Bracket (inFront)

theorem balanced_escapedMetadata (t : Text) : Bracket.Balanced .curly (escapedMetadata t) := by
  induction t with
  | nil => exact .nil
  | cons c t ih =>
    have hcons : escapedMetadata (c :: t) =
        (if Markup.isUnescaped c then [.char '\\', c] else [c]) ++ escapedMetadata t := List.flatMap_cons
    rw [hcons]
    by_cases hc : Markup.isUnescaped c = true
    · rw [if_pos hc]
      exact ih.escaped
    · rw [if_neg hc]
      simp only [Markup.isUnescaped, Bool.or_eq_true, beq_iff_eq, not_or] at hc
      exact .plain hc.2 hc.1.1 hc.1.2 ih

/-- What stands behind the clause, up to the end of the text. -/
def tail (metadata : Option Text) (q : Text) : Text := printedMetadata metadata ++ .char '\x7d' :: q

/-- The metadata as they stand in the marker. -/
def writtenMetadata (m : Text) : Text := " ".text ++ escapedMetadata m

/-- What is left of the tail when the spaces in front are gone. -/
theorem tail_cases (metadata : Option Text) (q : Text) :
    (metadata = none ∧ Reader.dropSpaces (tail metadata q) = .char '\x7d' :: q) ∨
      ∃ m, metadata = some m ∧
        Reader.dropSpaces (tail metadata q) = "meta:".text ++ (writtenMetadata m ++ .char '\x7d' :: q) := by
  cases metadata with
  | none => exact Or.inl ⟨rfl, rfl⟩
  | some m =>
    refine Or.inr ⟨m, rfl, ?_⟩
    rw [tail, printedMetadata, writtenMetadata, Option.map_some, Option.getD_some, List.append_assoc, List.append_assoc]
    rfl

theorem metadataMark?_colon (t : Text) : metadataMark? ("meta:".text ++ t) = some t := by
  rw [metadataMark?]
  have hkeyword : Reader.keyword? "meta".text ("meta:".text ++ t) = some (":".text ++ t) :=
    Reader.keyword?_eq_some_iff.mpr ⟨rfl, MarkerHead.head_cons (by decide) _⟩
  rw [hkeyword]
  rfl

/-- The clause ends where the tail begins; a space in front of the metadata is still taken. -/
theorem clauseFrom_tail (metadata : Option Text) (q : Text) (before : CodePoint) :
    ∃ gap, clauseFrom none 0 before (tail metadata q) = some (gap, Reader.dropSpaces (tail metadata q)) ∧
      ∀ t, Text.trim (t ++ gap) = Text.trim t := by
  rcases tail_cases metadata q with ⟨rfl, hdrop⟩ | ⟨m, rfl, hdrop⟩
  · refine ⟨[], ?_, fun t => by rw [List.append_nil]⟩
    rw [hdrop]
    exact clauseFrom_end q
  · refine ⟨" ".text, ?_, fun t => Text.trim_append_blank (by decide) t⟩
    rw [hdrop]
    generalize hrest : "meta:".text ++ (writtenMetadata m ++ .char '\x7d' :: q) = rest
    have htail : tail (some m) q = .char ' ' :: rest := by
      rw [tail, printedMetadata, Option.map_some, Option.getD_some, ← hrest, writtenMetadata, List.append_assoc,
        List.append_assoc]
      rfl
    have hmeta : clauseFrom none 0 ' ' rest = some ([], rest) := by
      rw [← hrest]
      exact clauseFrom_mark (by decide) (metadataMark?_colon _)
    have hspace : IsOrdinary ' ' := (isOrdinary_of_isSpace (c := ' ') (by decide)).1
    rw [htail, clauseFrom_ordinary hspace (Or.inr (metadataMark?_eq_none (by decide) _)), hmeta]
    rfl

theorem tail_head (metadata : Option Text) (q : Text) : ∀ c ∈ (tail metadata q).head?, Reader.isNameChar c = false := by
  intro c hc
  cases metadata with
  | none =>
    cases hc
    decide
  | some m =>
    cases hc
    decide

/-- The clause is read back, up to spaces in front and behind. -/
theorem readClause_printed {clause : Option Text} (hparsed : ∀ w ∈ clause, ∃ c, Where.parse w = .ok c)
    (metadata : Option Text) (q : Text) :
    readClause? (Reader.dropSpaces (printedClause clause ++ tail metadata q)) =
      some (clause.map Text.trim, Reader.dropSpaces (tail metadata q)) := by
  cases clause with
  | none =>
    have hnone : Reader.keyword? "where".text (Reader.dropSpaces (tail metadata q)) = none := by
      rcases tail_cases metadata q with ⟨-, hdrop⟩ | ⟨m, -, hdrop⟩
      · rw [hdrop]
        rfl
      · rw [hdrop]
        rfl
    rw [printedClause, Option.map_none, Option.getD_none, List.nil_append, readClause?, hnone]
    rfl
  | some w =>
    obtain ⟨c, hc⟩ := hparsed w rfl
    have htext : Reader.dropSpaces (printedClause (some w) ++ tail metadata q) =
        "where".text ++ (" ".text ++ (w ++ tail metadata q)) := by
      rw [printedClause, Option.map_some, Option.getD_some, List.append_assoc]
      rfl
    have hkeyword : Reader.keyword? "where".text ("where".text ++ (" ".text ++ (w ++ tail metadata q))) =
        some (" ".text ++ (w ++ tail metadata q)) :=
      Reader.keyword?_eq_some_iff.mpr ⟨rfl, MarkerHead.head_cons (by decide) _⟩
    have hspace : Passes " ".text (w ++ tail metadata q) :=
      passes_plain (fun c hc => isOrdinary_of_isSpace (by rw [List.mem_singleton.mp hc]; decide)) _
    obtain ⟨last, hpass⟩ := hspace.append (parse_passes hc (tail_head metadata q)) 'e'
    obtain ⟨gap, hend, htrim⟩ := clauseFrom_tail metadata q last
    have hclause : Text.trim (" ".text ++ w ++ gap) = Text.trim w := by
      rw [htrim]
      exact Text.trim_cons_blank (by decide) w
    rw [htext, readClause?, hkeyword]
    dsimp only
    rw [← List.append_assoc, hpass, hend]
    simp only [inFront, Option.map_some, hclause]

/-- The body is read back: the clause without the spaces around it, the metadata with their
    backslashes. -/
theorem read_printed {b : MarkerBody} (hb : b.Printable) {t q : Text}
    (ht : Reader.dropSpaces t = Reader.dropSpaces (b.printed ++ .char '\x7d' :: q)) :
    read? t = some (⟨b.clause.map Text.trim, b.metadata.map writtenMetadata⟩, q) := by
  have htext : b.printed ++ .char '\x7d' :: q = printedClause b.clause ++ tail b.metadata q := by
    rw [printed, tail, List.append_assoc]
  rw [read?, ht, htext, readClause_printed hb.parsed]
  dsimp only
  rw [MarkerHead.dropSpaces_dropSpaces]
  rcases tail_cases b.metadata q with ⟨hm, hdrop⟩ | ⟨m, hm, hdrop⟩
  · have hmark : metadataMark? (.char '\x7d' :: q) = none := metadataMark?_eq_none (by decide) q
    have hclose : Bracket.closing? .curly (.char '\x7d' :: q) = some ([], q) :=
      (Bracket.closing?_eq_some_iff Bracket.Pair.curly_proper).mpr ⟨.nil, rfl⟩
    rw [hdrop, hmark]
    dsimp only
    rw [hclose, hm]
    rfl
  · have hbalanced : Bracket.Balanced .curly (writtenMetadata m) :=
      .plain (by decide) (by decide) (by decide) (balanced_escapedMetadata m)
    have hclose : Bracket.closing? .curly (writtenMetadata m ++ .char '\x7d' :: q) = some (writtenMetadata m, q) :=
      (Bracket.closing?_eq_some_iff Bracket.Pair.curly_proper).mpr ⟨hbalanced, rfl⟩
    rw [hdrop, metadataMark?_colon]
    dsimp only
    rw [hclose, hm]
    rfl

end MarkerBody

/-! ## Reading the whole -/

namespace MarkerHead

theorem readSubtype_reserved (word : Text) {after : Text} (hne : word ≠ []) (hword : Small word)
    (hreserved : isReserved word = true) (hafter : ∀ c ∈ after.head?, Reader.isSmall c = false) :
    readSubtype (word ++ after) = (none, word ++ after) := by
  have hrun := smallRun_append hword hafter
  obtain ⟨c, letters, rfl⟩ := List.exists_cons_of_ne_nil hne
  rw [readSubtype, hrun]
  simp [hreserved]

theorem readNumber?_of_head {t : Text} (h : ∀ c ∈ t.head?, Reader.isDigit c = false) :
    readNumber? t = some (none, t) := by
  have hnone : t.takeWhile Reader.isDigit = [] := by
    rcases t with _ | ⟨c, t⟩
    · rfl
    · exact List.takeWhile_cons_of_neg (by simp [h c rfl])
  rw [readNumber?, Reader.digits?, hnone]
  rfl

/-- Behind the head stands the body, or the end of the marker. -/
theorem ends_printed (b : MarkerBody) (q : Text) : Ends (b.printed ++ .char '\x7d' :: q) := by
  obtain ⟨clause, metadata⟩ := b
  rcases clause with _ | w
  · rcases metadata with _ | m
    · refine ⟨head_cons (by decide) _, head_cons (by decide) _, head_cons (by decide) _, rfl, ?_⟩
      exact readNumber?_of_head (head_cons (by decide) _)
    · refine ⟨head_cons (by decide) _, head_cons (by decide) _, head_cons (by decide) _, ?_, ?_⟩
      · exact readSubtype_reserved "meta".text (by decide) (by unfold Small; decide) (by decide) (head_cons (by decide) _)
      · exact readNumber?_of_head (head_cons (by decide) _)
  · refine ⟨head_cons (by decide) _, head_cons (by decide) _, head_cons (by decide) _, ?_, ?_⟩
    · exact readSubtype_reserved "where".text (by decide) (by unfold Small; decide) (by decide) (head_cons (by decide) _)
    · exact readNumber?_of_head (head_cons (by decide) _)

end MarkerHead

/-- A marker is read back, whatever stands behind it. -/
theorem Marker.read_printed {h : MarkerHead} {b : MarkerBody} (hh : h.Printable) (hb : b.Printable) (q : Text) :
    Marker.read (h.printed ++ b.printed ++ .char '\x7d' :: q) =
      .ok (some (⟨h, ⟨b.clause.map Text.trim, b.metadata.map MarkerBody.writtenMetadata⟩, printed h b⟩, q)) := by
  obtain ⟨after, hread, hafter⟩ := MarkerHead.read_printed hh (MarkerHead.ends_printed b q)
  rw [← List.append_assoc] at hread
  refine read_eq_ok_iff.mpr ⟨h, after, _, hread, MarkerBody.read_printed hb hafter, hh.number, ?_⟩
  have htext : h.printed ++ b.printed ++ .char '\x7d' :: q = (h.printed ++ b.printed ++ [.char '\x7d']) ++ q := by
    simp only [List.append_assoc, List.singleton_append]
  rw [htext, List.length_append, Nat.add_sub_cancel, List.take_left]
  rfl

theorem Markup.read_metadata_escaped (place : Nat) (t : Text) :
    read .metadata place (MarkerBody.escapedMetadata t) = behind t .done := by
  induction t generalizing place with
  | nil => rw [MarkerBody.escapedMetadata, List.flatMap_nil, read]; rfl
  | cons c t ih =>
    have hcons : MarkerBody.escapedMetadata (c :: t) =
        (if isUnescaped c then [.char '\\', c] else [c]) ++ MarkerBody.escapedMetadata t := List.flatMap_cons
    rw [hcons, behind_cons]
    by_cases hc : isUnescaped c = true
    · rw [if_pos hc]
      show read .metadata place (.char '\\' :: c :: MarkerBody.escapedMetadata t) = _
      rw [read, if_neg (by decide), ih, escaped]
      simp [hc]
    · rw [if_neg hc]
      simp only [isUnescaped, Bool.or_eq_true, beq_iff_eq, not_or] at hc
      rw [List.singleton_append, read_cons_plain hc.1.1 (Or.inr hc.2), ih]

/-- The wildcard that was written, at its place and with the number it gets. -/
def printedOccurrence (h : MarkerHead) (b : MarkerBody) (number : Int) (place : Nat) : Occurrence where
  name := h.name
  obfuscated := h.obfuscated
  subtype := h.subtype
  number
  clause := b.clause.map Text.trim
  metadata := b.metadata.map Text.trim
  start := place
  stop := place + (printed h b).length
  text := printed h b
  nested := false

theorem occurrence_printed {h : MarkerHead} {b : MarkerBody} (hb : b.Printable) (number : Int) :
    Markup.occurrence ⟨h, ⟨b.clause.map Text.trim, b.metadata.map MarkerBody.writtenMetadata⟩, printed h b⟩ 0 false
      number ((b.clause.map Text.trim).getD []) ((b.metadata.map fun m => " ".text ++ m).getD []) =
      printedOccurrence h b number 0 := by
  have hclause : (Markup.occurrence
      ⟨h, ⟨b.clause.map Text.trim, b.metadata.map MarkerBody.writtenMetadata⟩, printed h b⟩ 0 false number
      ((b.clause.map Text.trim).getD []) ((b.metadata.map fun m => " ".text ++ m).getD [])).clause =
      b.clause.map Text.trim := by
    rcases hw : b.clause with _ | w
    · rfl
    · -- what can be read as a clause does not vanish when it is trimmed
      obtain ⟨c, hc⟩ := hb.parsed w hw
      have htrim : Text.trim (Text.trim w) = Text.trim w := Text.trim_trim w
      have hkept : Text.trim (Text.trim w) ≠ [] := by
        rw [htrim]
        exact parse_not_blank hc
      exact (Markup.occurrence_clause rfl hkept _ _ _ _).trans (congrArg some htrim)
  unfold Markup.occurrence printedOccurrence
  congr 1
  rcases b.metadata with _ | m
  · rfl
  · exact congrArg some (Text.trim_cons_blank (by decide) m)

/-- The scan of a wildcard with a text behind it. -/
theorem run_scan_printed {h : MarkerHead} {b : MarkerBody} (hh : h.Printable) (hb : b.Printable) (q : Text) (n : Int) :
    (scan (printed h b ++ q)).run n =
      let w := printedOccurrence h b ((h.number.map Int.ofNat).getD n) 0
      let (outcome, n') := (scan q).run (if h.number.isSome then n else n + 1)
      (outcome.map fun f => ⟨reference w.keycode ++ f.text, w :: f.direct.map (·.moved (printed h b).length),
        w :: f.all.map (·.moved (printed h b).length)⟩, n') := by
  have hread := Marker.read_printed hh hb q
  generalize hm : (⟨h, ⟨b.clause.map Text.trim, b.metadata.map MarkerBody.writtenMetadata⟩, printed h b⟩ : Marker) = m
    at hread
  have htext : printed h b ++ q = .char '\x7b' :: (h.printed ++ b.printed ++ .char '\x7d' :: q) := by
    simp only [printed, List.cons_append, List.append_assoc, List.nil_append]
  have hclause : Markup.read .clause 0 (m.clause.getD []) = .behind ((b.clause.map Text.trim).getD []) .done := by
    rw [← hm]
    refine Markup.read_clause_plain ?_ 0
    intro hmem
    rcases hc : b.clause with _ | w
    · rw [hc] at hmem
      cases hmem
    · rw [hc] at hmem
      exact hb.unopened w hc ((Text.trim_sublist w).mem hmem)
  have hmetadata : Markup.read .metadata 0 (m.metadata.getD []) =
      .behind ((b.metadata.map fun m => " ".text ++ m).getD []) .done := by
    rw [← hm]
    rcases b.metadata with _ | m
    · show Markup.read .metadata 0 [] = .done
      rw [Markup.read]
    · show Markup.read .metadata 0 (.char ' ' :: MarkerBody.escapedMetadata m) = .behind (.char ' ' :: m) .done
      rw [Markup.read_cons_plain (by decide) (Or.inr (by decide)), Markup.read_metadata_escaped]
      rfl
  have hnumber : (Markup.numberOf m).run n =
      (.ok ((h.number.map Int.ofNat).getD n), if h.number.isSome then n else n + 1) := by
    rw [← hm, Markup.numberOf]
    rcases h.number with _ | k
    · rfl
    · rfl
  rw [htext, scan, Markup.read_brace, hread]
  dsimp only
  rw [hclause, hmetadata, Markup.run_marker hnumber (Markup.run_plain _ _ _) (Markup.run_plain _ _ _),
    Markup.read_moved, Markup.run_moved]
  subst hm
  simp only [occurrence_printed hb]
  rw [scan]
  rcases ((Markup.read .sentence 0 q).number false).run (if h.number.isSome then n else n + 1) with ⟨f | found, n'⟩
  · rfl
  · rfl

theorem moved_moved (j k : Nat) (w : Occurrence) : (w.moved j).moved k = w.moved (k + j) := by
  by_cases hw : w.nested = true
  · have hkept : ∀ i, w.moved i = w := fun i => if_pos hw
    rw [hkept j, hkept k, hkept]
  · simp only [Occurrence.moved, if_neg hw, Nat.add_assoc, Nat.add_comm j k]

theorem moved_printed (h : MarkerHead) (b : MarkerBody) (number : Int) (k : Nat) :
    (printedOccurrence h b number 0).moved k = printedOccurrence h b number k := by
  show (⟨h.name, h.obfuscated, h.subtype, number, _, _, 0 + k, 0 + (printed h b).length + k, _, false⟩ : Occurrence) = _
  rw [Nat.zero_add, Nat.zero_add, Nat.add_comm _ k]
  rfl

/-- A wildcard that was written is read again, in any context: behind a text without an
    opening bracket and in front of any text. -/
theorem scan_printed {h : MarkerHead} {b : MarkerBody} (hh : h.Printable) (hb : b.Printable) {p : Text}
    (hp : .char '\x7b' ∉ p) (q : Text) (n : Int) :
    (scan (p ++ printed h b ++ q)).run n =
      let w := printedOccurrence h b ((h.number.map Int.ofNat).getD n) p.length
      let (outcome, n') := (scan q).run (if h.number.isSome then n else n + 1)
      (outcome.map fun f => ⟨p ++ reference w.keycode ++ f.text, w :: f.direct.map (·.moved w.stop),
        w :: f.all.map (·.moved w.stop)⟩, n') := by
  rw [List.append_assoc, run_scan_behind hp, run_scan_printed hh hb]
  rcases (scan q).run (if h.number.isSome then n else n + 1) with ⟨f | found, n'⟩
  · rfl
  · have hkeycode : ∀ number place, (printedOccurrence h b number place).keycode = keycode h.name number := fun _ _ => rfl
    have hstop : ∀ number, (printedOccurrence h b number p.length).stop = p.length + (printed h b).length := fun _ => rfl
    have hmoved : (fun w : Occurrence => (w.moved (printed h b).length).moved p.length) =
        fun w => w.moved (p.length + (printed h b).length) := funext fun w => moved_moved _ _ w
    simp only [Except.map, Found.moved, List.map_cons, List.map_map, Function.comp_def, moved_printed, hkeycode, hstop,
      hmoved, List.append_assoc]

/-- Every field is there. The clause has a bracket and the word of the metadata in quotes. -/
def labelled : MarkerHead := ⟨"object".text, true, some "small".text, some 7⟩

def labels : MarkerBody := ⟨some "name = \"\x7d meta: \\\"\"".text, some "see \x7bhere\x7d".text⟩

theorem scan_printed_labelled :
    ((scan ("Take ".text ++ printed labelled labels ++ " now".text)).run 1000).1.toOption.map Found.direct =
      some [printedOccurrence labelled labels 7 5] := by
  have hhead : labelled.Printable := ⟨by decide, by unfold Small; decide, by unfold Small; decide, by decide⟩
  have hparsed : (Where.parse "name = \"\x7d meta: \\\"\"".text).isOk = true := by decide +kernel
  have hbody : labels.Printable := by
    refine ⟨?_, by decide⟩
    intro w hw
    cases hw
    rcases hc : Where.parse "name = \"\x7d meta: \\\"\"".text with f | c
    · rw [hc] at hparsed
      cases hparsed
    · exact ⟨c, rfl⟩
  rw [scan_printed hhead hbody (by decide)]
  decide +kernel

end Errand
