/-
  Errand.Proofs.Grammar.Alternatives — the list of alternatives is settled.

  Splitting at bars, trimming and unwrapping may each undo what another one left: a blank that is
  cut off may have stood behind a backslash, and a bracket that is not closed takes all bars
  behind it. What keeps the list as it is: an alternative is a segment that neither splits
  nor unwraps (`Lists.alone`), and the only one that may leave a bracket open is the last
  (`isClosed_of_mem_dropLast`), since what stands in brackets closes all that it opens.

  - `alternatives_settled`: there is an alternative; each is trimmed and lists itself alone; and
    joined by bars the alternatives are listed again.
-/

import Errand.Proofs.Grammar.Segments

namespace Errand

/-! ## Trimming keeps what is settled -/

theorem after_blanks {blanks : Text} (h : ∀ c ∈ blanks, Text.isBlank c = true) (depth : Nat) :
    Bracket.Standing.after .round ⟨depth, false⟩ blanks = ⟨depth, false⟩ := by
  induction blanks with
  | nil => rfl
  | cons c blanks ih =>
    obtain ⟨hc, hblanks⟩ := List.forall_mem_cons.mp h
    rw [Bracket.Standing.after_cons, (plain_of_isBlank hc).step, ih hblanks]

/-- Blanks open and close nothing, and the first of them may be out of play. -/
theorem depth_after_blanks {blanks : Text} (h : ∀ c ∈ blanks, Text.isBlank c = true) (s : Bracket.Standing) :
    (s.after .round blanks).depth = s.depth := by
  cases blanks with
  | nil => rfl
  | cons c blanks =>
    obtain ⟨hc, hblanks⟩ := List.forall_mem_cons.mp h
    rw [Bracket.Standing.after_cons, (plain_of_isBlank hc).step, after_blanks hblanks]

/-- The brackets stay, whatever is trimmed, and a backslash that stays last takes none of them out
    of play. -/
theorem isClosed_trim {t : Text} : IsClosed (Text.trim t) ↔ IsClosed t := by
  obtain ⟨left, right, ht, hleft, hright⟩ := Text.exists_trim t
  have hdepth : (Bracket.Standing.start.after .round t).depth =
      (Bracket.Standing.start.after .round (Text.trim t)).depth := by
    have hstart : Bracket.Standing.start.after .round left = .start := after_blanks hleft 0
    conv_lhs => rw [ht]
    rw [Bracket.Standing.after_append, Bracket.Standing.after_append, hstart, depth_after_blanks hright]
  rw [IsClosed, IsClosed, hdepth]

theorem unsplit_trim {t : Text} (h : Bracket.Unsplit '|' .round .start t) :
    Bracket.Unsplit '|' .round .start (Text.trim t) := by
  have hsegments : (Bracket.splitOutside '|' .round (Text.trim t)).map Text.trim = [Text.trim t] := by
    have htrim := trimmedSegments_trim t
    rw [trimmedSegments, trimmedSegments, (Bracket.splitOutside_eq_singleton_iff Bracket.apart_bar).mpr h] at htrim
    exact htrim
  obtain ⟨whole, hwhole, -⟩ := List.map_eq_singleton_iff.mp hsegments
  -- the only segment of a text is the text itself
  have hjoin := Bracket.join_splitOutside Bracket.apart_bar (Text.trim t)
  rw [hwhole, Text.join_singleton] at hjoin
  rw [← Bracket.splitOutside_eq_singleton_iff Bracket.apart_bar, hwhole, hjoin]

/-- What stands in brackets closes all that it opens. -/
theorem isClosed_inside {t inside : Text} (h : unwrapped? t = some inside) : IsClosed inside := by
  unfold unwrapped? at h
  split at h
  · split at h
    · rename_i hclosing
      cases h
      have hbalanced := ((Bracket.closing?_eq_some_iff Bracket.Pair.round_proper).mp hclosing).1
      exact congrArg Bracket.Standing.depth (Bracket.Standing.after_balanced Bracket.Pair.round_proper hbalanced 0)
    · cases h
  · cases h

/-! ## What becomes an alternative -/

/-- How a text comes to list an alternative: it is a segment, or a segment is a group that
    lists it. -/
inductive Lists : Text → Text → Prop
  | segment {t part : Text} : part ∈ Bracket.splitOutside '|' .round t → unwrapped? (Text.trim part) = none →
      Lists t (Text.trim part)
  | group {t part inside a : Text} : part ∈ Bracket.splitOutside '|' .round t →
      unwrapped? (Text.trim part) = some inside → Lists inside a → Lists t a

theorem lists_of_mem {t a : Text} (h : a ∈ alternativesIn t) : Lists t a := by
  rw [alternativesIn_eq, List.mem_flatMap] at h
  obtain ⟨part, hpart, ha⟩ := h
  unfold alternativesOf at ha
  split at ha
  · rename_i inside hinside
    have hlt : inside.length < t.length := length_unwrapped?_lt hpart hinside
    exact .group hpart hinside (lists_of_mem ha)
  · rename_i hnone
    rw [List.mem_singleton] at ha
    subst ha
    exact .segment hpart hnone
termination_by t.length

/-- A text without blanks at its ends that neither splits nor unwraps. -/
structure Alone (a : Text) : Prop where
  trimmed : Text.Trimmed a
  unsplit : Bracket.Unsplit '|' .round .start a
  bare : unwrapped? a = none

theorem Lists.alone {t a : Text} (h : Lists t a) : Alone a := by
  induction h with
  | @segment t part hpart hnone =>
    have hunsplit := (Bracket.segmented_splitOutside Bracket.apart_bar t).unsplit part hpart
    exact ⟨Text.trim_trimmed part, unsplit_trim hunsplit, hnone⟩
  | group _ _ _ ih => exact ih

theorem Alone.alternativesOfTrimmed_eq {a : Text} (h : Alone a) : alternativesOfTrimmed a = [a] := by
  rw [alternativesOfTrimmed, h.bare]

theorem Alone.alternativesIn_eq {a : Text} (h : Alone a) : alternativesIn a = [a] := by
  have hsegments : trimmedSegments a = [a] := by
    rw [trimmedSegments, (Bracket.splitOutside_eq_singleton_iff Bracket.apart_bar).mpr h.unsplit, List.map_singleton,
      Text.trim_eq_self h.trimmed]
  rw [alternativesIn_eq_trimmed, hsegments, List.flatMap_singleton, h.alternativesOfTrimmed_eq]

/-! ## Which brackets stay open -/

theorem Lists.isClosed {t a : Text} (h : Lists t a) (ht : IsClosed t) : IsClosed a := by
  induction h with
  | @segment t part hpart hnone =>
    have hsegments := Bracket.segmented_splitOutside Bracket.apart_bar t
    refine isClosed_trim.mpr (hsegments.depth_eq_zero Bracket.apart_bar ?_ part hpart)
    rw [Bracket.join_splitOutside Bracket.apart_bar]
    exact ht
  | group _ hinside _ ih => exact ih (isClosed_inside hinside)

theorem isClosed_of_mem {part a : Text} (ha : a ∈ alternativesOf part) (hpart : IsClosed part) : IsClosed a := by
  unfold alternativesOf at ha
  split at ha
  · rename_i inside hinside
    exact (lists_of_mem ha).isClosed (isClosed_inside hinside)
  · rw [List.mem_singleton] at ha
    subst ha
    exact isClosed_trim.mpr hpart

theorem isClosed_of_mem_dropLast_part {part a : Text} (ha : a ∈ (alternativesOf part).dropLast) : IsClosed a := by
  unfold alternativesOf at ha
  split at ha
  · rename_i inside hinside
    exact (lists_of_mem ((List.dropLast_sublist _).subset ha)).isClosed (isClosed_inside hinside)
  · cases ha

/-- Only the last alternative of a text may leave a bracket open. -/
theorem isClosed_of_mem_dropLast {t a : Text} (h : a ∈ (alternativesIn t).dropLast) : IsClosed a := by
  have hsegments := Bracket.segmented_splitOutside Bracket.apart_bar t
  have hne : Bracket.splitOutside '|' .round t ≠ [] := List.cons_ne_nil _ _
  rw [alternativesIn_eq, ← List.dropLast_append_getLast hne, List.flatMap_append, List.flatMap_singleton,
    List.dropLast_append_of_ne_nil (alternativesOf_ne_nil _), List.mem_append, List.mem_flatMap] at h
  rcases h with ⟨part, hpart, ha⟩ | ha
  · exact isClosed_of_mem ha (congrArg Bracket.Standing.depth (hsegments.after_dropLast part hpart))
  · exact isClosed_of_mem_dropLast_part ha

/-! ## The list as a whole -/

/-- The alternatives of a text are settled: there is one; each is trimmed and lists itself alone; and a
    text that lists them, bars between, lists the same. -/
theorem alternatives_settled (t : Text) :
    alternativesIn t ≠ [] ∧ (∀ a ∈ alternativesIn t, Text.Trimmed a ∧ alternativesIn a = [a]) ∧
      alternativesIn (Text.join " | ".text (alternativesIn t)) = alternativesIn t := by
  have halone : ∀ a ∈ alternativesIn t, Alone a := fun a ha => (lists_of_mem ha).alone
  refine ⟨alternativesIn_ne_nil t, ?_, ?_⟩
  · intro a ha
    exact ⟨(halone a ha).trimmed, (halone a ha).alternativesIn_eq⟩
  · have hsegments : trimmedSegments (Text.join " | ".text (alternativesIn t)) = alternativesIn t := by
      rw [trimmedSegments_join (alternativesIn_ne_nil t) (fun a ha => (halone a ha).unsplit)
        fun a ha => isClosed_of_mem_dropLast ha]
      exact (List.map_congr_left fun a ha => Text.trim_eq_self (halone a ha).trimmed).trans (List.map_id _)
    calc alternativesIn (Text.join " | ".text (alternativesIn t))
        = (alternativesIn t).flatMap alternativesOfTrimmed := by rw [alternativesIn_eq_trimmed, hsegments]
      _ = (alternativesIn t).flatMap fun a => [a] :=
        List.flatMap_congr fun a ha => (halone a ha).alternativesOfTrimmed_eq
      _ = alternativesIn t := List.flatMap_singleton' _

end Errand
