/-
  Errand.Proofs.Text.Trimming — texts without the blanks at their ends.

  What is trimmed begins and ends with no blank, and a text of which this is true stays as
  it is (`trim_eq_self`). Blanks added at the ends make no difference.
-/

import Errand.Text.Basic
import Mathlib.Data.List.DropRight

namespace Errand.Text

theorem trim_eq (t : Text) : trim t = (t.dropWhile isBlank).rdropWhile isBlank := rfl

/-- A text that neither begins nor ends with a blank. -/
def Trimmed (t : Text) : Prop := (∀ c ∈ t.head?, isBlank c = false) ∧ ∀ c ∈ t.getLast?, isBlank c = false

theorem dropWhile_of_head {p : CodePoint → Bool} {t : Text} (h : ∀ c ∈ t.head?, p c = false) : t.dropWhile p = t := by
  cases t with
  | nil => rfl
  | cons c t => exact List.dropWhile_cons_of_neg (by simp [h c rfl])

theorem head_dropWhile (p : CodePoint → Bool) (t : Text) : ∀ c ∈ (t.dropWhile p).head?, p c = false := by
  intro c hc
  have h := List.head?_dropWhile_not p t
  rw [Option.mem_def.mp hc] at h
  simpa using h

theorem rdropWhile_of_last {p : CodePoint → Bool} {t : Text} (h : ∀ c ∈ t.getLast?, p c = false) :
    t.rdropWhile p = t := by
  rw [List.rdropWhile, dropWhile_of_head, List.reverse_reverse]
  intro c hc
  rw [List.head?_reverse] at hc
  exact h c hc

theorem trim_eq_self {t : Text} (h : Trimmed t) : trim t = t := by
  rw [trim_eq, dropWhile_of_head h.1, rdropWhile_of_last h.2]

theorem trim_trimmed (t : Text) : Trimmed (trim t) := by
  have hleft := head_dropWhile isBlank t
  rw [trim_eq]
  generalize t.dropWhile isBlank = s at hleft
  constructor
  · -- what is left of a text behind which blanks were taken away begins as that text does
    obtain ⟨r, hr⟩ := List.rdropWhile_prefix isBlank (l := s)
    intro c hc
    refine hleft c ?_
    rw [← hr, List.head?_append, Option.mem_def.mp hc]
    rfl
  · intro c hc
    rw [List.rdropWhile, List.getLast?_reverse] at hc
    exact head_dropWhile isBlank s.reverse c hc

theorem trim_trim (t : Text) : trim (trim t) = trim t := trim_eq_self (trim_trimmed t)

theorem trim_cons_blank {c : CodePoint} (hc : isBlank c = true) (t : Text) : trim (c :: t) = trim t := by
  rw [trim_eq, List.dropWhile_cons_of_pos hc, trim_eq]

theorem trim_append_blank {c : CodePoint} (hc : isBlank c = true) (t : Text) : trim (t ++ [c]) = trim t := by
  rw [trim_eq, trim_eq, List.dropWhile_append]
  by_cases h : (t.dropWhile isBlank).isEmpty = true
  · rw [if_pos h, List.isEmpty_iff.mp h, List.dropWhile_cons_of_pos hc]
    rfl
  · rw [if_neg h, List.rdropWhile_concat_pos _ _ _ hc]

/-- A text is what remains of it trimmed, with blanks on both sides. -/
theorem exists_trim (t : Text) : ∃ left right, t = left ++ trim t ++ right ∧ (∀ c ∈ left, isBlank c = true) ∧
    ∀ c ∈ right, isBlank c = true := by
  refine ⟨t.takeWhile isBlank, (t.dropWhile isBlank).rtakeWhile isBlank, ?_, fun c hc => List.mem_takeWhile_imp hc,
    fun c hc => List.mem_rtakeWhile_imp hc⟩
  rw [trim_eq, List.append_assoc, List.rdropWhile_append_rtakeWhile, List.takeWhile_append_dropWhile]

/-- Blanks on both sides make no difference. -/
theorem trim_blanks {left right : Text} (hleft : ∀ c ∈ left, isBlank c = true) (hright : ∀ c ∈ right, isBlank c = true)
    (t : Text) : trim (left ++ t ++ right) = trim t := by
  induction left with
  | nil =>
    rw [List.nil_append]
    induction right using List.reverseRecOn with
    | nil => rw [List.append_nil]
    | append_singleton right c ih =>
      rw [← List.append_assoc, trim_append_blank (hright c (by simp))]
      exact ih fun d hd => hright d (by simp [hd])
  | cons c left ih =>
    rw [List.cons_append, List.cons_append, trim_cons_blank (hleft c List.mem_cons_self)]
    exact ih fun d hd => hleft d (List.mem_cons_of_mem _ hd)

/-- Blanks on both sides are all that is trimmed of a text without blanks at its ends. -/
theorem trim_append {left t right : Text} (hleft : ∀ c ∈ left, isBlank c = true) (ht : Trimmed t)
    (hright : ∀ c ∈ right, isBlank c = true) : trim (left ++ t ++ right) = t := by
  rw [trim_blanks hleft hright, trim_eq_self ht]

theorem trimRight_blanks {t right : Text} (ht : ∀ c ∈ t.getLast?, isBlank c = false)
    (hright : ∀ c ∈ right, isBlank c = true) : trimRight (t ++ right) = t := by
  rw [trimRight, List.reverse_append, List.dropWhile_append_of_pos fun c hc => hright c (List.mem_reverse.mp hc)]
  exact rdropWhile_of_last ht

/-- A text with a character that is no blank is not trimmed away. -/
theorem trim_ne_nil {t : Text} {c : CodePoint} (hc : c ∈ t) (hblank : isBlank c = false) : trim t ≠ [] := by
  intro h
  rw [trim_eq, List.rdropWhile_eq_nil_iff] at h
  have hall : ∀ d ∈ t.dropWhile isBlank, isBlank d = true := h
  have hnil : t.dropWhile isBlank = [] := by
    have hhead := head_dropWhile isBlank t
    rcases hrest : t.dropWhile isBlank with _ | ⟨d, rest⟩
    · rfl
    · rw [hrest] at hall hhead
      have hd := hall d List.mem_cons_self
      rw [hhead d rfl] at hd
      cases hd
  have hc' := List.dropWhile_eq_nil_iff.mp hnil c hc
  rw [hblank] at hc'
  cases hc'

end Errand.Text
