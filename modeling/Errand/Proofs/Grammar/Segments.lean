/-
  Errand.Proofs.Grammar.Segments — blanks around what a text lists.

  Alternatives are cut at the bars outside of brackets and taken without the blanks at their
  ends. A blank in front of a text, or behind it, stays in the first segment or in the last one and is
  gone when that is trimmed (`trimmedSegments_trim`). So blanks at the ends of a text make no
  difference to what it lists, a backslash at its very end included (`alternativesIn_trim`).

  Texts with a bar between blanks from each to the next are the segments of the whole, as long as none of
  them is split and none but the last leaves a bracket open (`trimmedSegments_join`).
-/

import Errand.Grammar.Rule
import Errand.Proofs.Text.Splitting
import Errand.Proofs.Text.Trimming

namespace Errand

/-! ## Segments -/

namespace Bracket
variable {separator : CodePoint} {p : Pair}

/-- A character that means nothing to the splitting. -/
structure Plain (separator : CodePoint) (p : Pair) (c : CodePoint) : Prop where
  backslash : c ≠ .char '\\'
  opening : c ≠ p.opening
  closing : c ≠ p.closing
  separator : c ≠ separator

theorem Plain.step {c : CodePoint} (h : Plain separator p c) (s : Standing) : s.step p c = ⟨s.depth, false⟩ :=
  Standing.step_plain h.backslash h.opening h.closing s

theorem Plain.segments {c : CodePoint} (h : Plain separator p c) (s : Standing) (t : Text) :
    segments separator p s (c :: t) = Text.consFirst c (segments separator p ⟨s.depth, false⟩ t) := by
  rw [segments_cons (by simp [h.separator]), h.step]

/-- The segments with a character more at the end of the last one. -/
inductive Lengthened (c : CodePoint) : Text × List Text → Text × List Text → Prop
  | first (t : Text) : Lengthened c (t, []) (t ++ [c], [])
  | later (t : Text) (more : List Text) (last : Text) : Lengthened c (t, more ++ [last]) (t, more ++ [last ++ [c]])

theorem Lengthened.consFirst {c : CodePoint} {s s' : Text × List Text} (h : Lengthened c s s') (d : CodePoint) :
    Lengthened c (Text.consFirst d s) (Text.consFirst d s') := by
  cases h with
  | first t => exact .first (d :: t)
  | later t more last => exact .later (d :: t) more last

theorem Lengthened.startSegment {c : CodePoint} {s s' : Text × List Text} (h : Lengthened c s s') :
    Lengthened c (Text.startSegment s) (Text.startSegment s') := by
  cases h with
  | first t => exact .later [] [] t
  | later t more last => exact .later [] (t :: more) last

/-- A plain character at the end of a text is in its last segment, behind a backslash as well. -/
theorem lengthened_segments {c : CodePoint} (hc : Plain separator p c) (s : Standing) (t : Text) :
    Lengthened c (segments separator p s t) (segments separator p s (t ++ [c])) := by
  induction t generalizing s with
  | nil =>
    rw [List.nil_append, hc.segments]
    exact .first []
  | cons d t ih =>
    rw [List.cons_append]
    by_cases hd : d = separator ∧ s = .start
    · rw [segments_cut hd, segments_cut hd]
      exact (ih _).startSegment
    · rw [segments_cons hd, segments_cons hd]
      exact (ih _).consFirst d

end Bracket

/-! ## Blanks around what is listed -/

/-- The segments of a text between its bars, without the blanks at their ends. -/
def trimmedSegments (t : Text) : List Text := (Bracket.splitOutside '|' .round t).map Text.trim

/-- The alternatives that a segment without blanks at its ends stands for. -/
def alternativesOfTrimmed (part : Text) : List Text :=
  match unwrapped? part with
  | some inside => alternativesIn inside
  | none => [part]

theorem alternativesIn_eq_trimmed (t : Text) : alternativesIn t = (trimmedSegments t).flatMap alternativesOfTrimmed := by
  rw [alternativesIn_eq, trimmedSegments, List.flatMap_map]
  rfl

theorem alternativesIn_ne_nil (t : Text) : alternativesIn t ≠ [] := by
  rw [alternativesIn_eq, Bracket.splitOutside, List.flatMap_cons]
  intro h
  have hfirst := (List.append_eq_nil_iff.mp h).1
  unfold alternativesOf at hfirst
  split at hfirst
  · rename_i inside hu
    have hlt : inside.length < t.length := length_unwrapped?_lt List.mem_cons_self hu
    exact alternativesIn_ne_nil inside hfirst
  · cases hfirst
termination_by t.length

theorem alternativesOf_ne_nil (part : Text) : alternativesOf part ≠ [] := by
  unfold alternativesOf
  split
  · exact alternativesIn_ne_nil _
  · exact List.cons_ne_nil _ _

theorem plain_of_isBlank {c : CodePoint} (hc : Text.isBlank c = true) : Bracket.Plain '|' .round c := by
  refine ⟨?_, ?_, ?_, ?_⟩ <;> (rintro rfl; revert hc; decide)

theorem trimmedSegments_cons_blank {c : CodePoint} (hc : Text.isBlank c = true) (t : Text) :
    trimmedSegments (c :: t) = trimmedSegments t := by
  rw [trimmedSegments, Bracket.splitOutside_eq Bracket.apart_bar, (plain_of_isBlank hc).segments, Text.consFirst,
    List.map_cons, Text.trim_cons_blank hc, trimmedSegments, Bracket.splitOutside_eq Bracket.apart_bar]
  rfl

theorem trimmedSegments_append_blank {c : CodePoint} (hc : Text.isBlank c = true) (t : Text) :
    trimmedSegments (t ++ [c]) = trimmedSegments t := by
  have h := Bracket.lengthened_segments (plain_of_isBlank hc) .start t
  simp only [trimmedSegments, Bracket.splitOutside_eq Bracket.apart_bar]
  generalize Bracket.segments '|' .round .start t = s at h
  generalize Bracket.segments '|' .round .start (t ++ [c]) = s' at h
  cases h with
  | first t => simp [Text.trim_append_blank hc]
  | later t more last => simp [Text.trim_append_blank hc]

theorem trimmedSegments_trim (t : Text) : trimmedSegments (Text.trim t) = trimmedSegments t := by
  obtain ⟨left, right, ht, hleft, hright⟩ := Text.exists_trim t
  have hfront : ∀ u, trimmedSegments (left ++ u) = trimmedSegments u := by
    intro u
    clear ht
    induction left with
    | nil => rfl
    | cons c left ih =>
      rw [List.cons_append, trimmedSegments_cons_blank (hleft c List.mem_cons_self)]
      exact ih fun d hd => hleft d (List.mem_cons_of_mem _ hd)
  -- blanks behind are taken off from the end, where they were put
  have hback : trimmedSegments (Text.trim t ++ right) = trimmedSegments (Text.trim t) := by
    clear ht
    induction right using List.reverseRecOn with
    | nil => rw [List.append_nil]
    | append_singleton right c ih =>
      rw [← List.append_assoc, trimmedSegments_append_blank (hright c (by simp))]
      exact ih fun d hd => hright d (by simp [hd])
  conv_rhs => rw [ht, List.append_assoc, hfront, hback]

/-- Blanks at the ends of a text make no difference to the alternatives that it lists. -/
theorem alternativesIn_trim (t : Text) : alternativesIn (Text.trim t) = alternativesIn t := by
  rw [alternativesIn_eq_trimmed, trimmedSegments_trim, ← alternativesIn_eq_trimmed]

/-! ## Bars between blanks -/

/-- Every bracket that a text opens is closed in it. -/
def IsClosed (t : Text) : Prop := (Bracket.Standing.start.after .round t).depth = 0

/-- Behind a text that is closed and not split, a bar between blanks ends the segment. -/
theorem trimmedSegments_bar {t : Text} (ht : Bracket.Unsplit '|' .round .start t) (hclosed : IsClosed t) (u : Text) :
    trimmedSegments (t ++ " | ".text ++ u) = Text.trim t :: trimmedSegments u := by
  have hblank : Text.isBlank ' ' = true := by decide
  have hbar : Bracket.segments '|' .round (Bracket.Standing.start.after .round t) (" | ".text ++ u) =
      ([.char ' '], Bracket.splitOutside '|' .round (.char ' ' :: u)) := by
    show Bracket.segments '|' .round _ (.char ' ' :: .char '|' :: .char ' ' :: u) = _
    rw [(plain_of_isBlank hblank).segments, hclosed, Bracket.segments_cut (s := ⟨0, false⟩) ⟨rfl, rfl⟩,
      Bracket.splitOutside_eq Bracket.apart_bar]
    rfl
  rw [List.append_assoc, trimmedSegments, Bracket.splitOutside_eq Bracket.apart_bar, ht.segments_append, hbar,
    List.map_cons, Text.trim_append_blank hblank]
  exact congrArg _ (trimmedSegments_cons_blank hblank u)

/-- Texts joined by bars are the segments of the whole, if none is split and all but the last are closed. -/
theorem trimmedSegments_join {texts : List Text} (hne : texts ≠ [])
    (hunsplit : ∀ t ∈ texts, Bracket.Unsplit '|' .round .start t) (hclosed : ∀ t ∈ texts.dropLast, IsClosed t) :
    trimmedSegments (Text.join " | ".text texts) = texts.map Text.trim := by
  induction texts with
  | nil => exact absurd rfl hne
  | cons t texts ih =>
    obtain ⟨ht, htexts⟩ := List.forall_mem_cons.mp hunsplit
    cases texts with
    | nil =>
      rw [Text.join_singleton, trimmedSegments, (Bracket.splitOutside_eq_singleton_iff Bracket.apart_bar).mpr ht]
    | cons next more =>
      rw [List.dropLast_cons_cons] at hclosed
      obtain ⟨hfirst, hrest⟩ := List.forall_mem_cons.mp hclosed
      rw [Text.join_cons_cons, trimmedSegments_bar ht hfirst, ih (List.cons_ne_nil _ _) htexts hrest]
      rfl

end Errand
