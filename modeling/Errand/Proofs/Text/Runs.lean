/-
  Errand.Proofs.Text.Runs — runs of characters of one class in texts put together.

  A run at the beginning of a text ends where it ended, whatever is put behind the text, if
  that does not begin with a character of the class.
-/

import Errand.Text.Basic
import Mathlib.Data.List.TakeWhile

namespace Errand.Text
variable {p : CodePoint → Bool} {u : Text}

theorem takeWhile_append_of_head (hu : ∀ c ∈ u.head?, p c = false) (t : Text) :
    (t ++ u).takeWhile p = t.takeWhile p := by
  induction t with
  | nil =>
    cases u with
    | nil => rfl
    | cons c u => exact List.takeWhile_cons_of_neg (by simp [hu c rfl])
  | cons d t ih =>
    by_cases h : p d
    · rw [List.cons_append, List.takeWhile_cons_of_pos h, List.takeWhile_cons_of_pos h, ih]
    · rw [List.cons_append, List.takeWhile_cons_of_neg h, List.takeWhile_cons_of_neg h]

theorem dropWhile_append_of_head (hu : ∀ c ∈ u.head?, p c = false) (t : Text) :
    (t ++ u).dropWhile p = t.dropWhile p ++ u := by
  induction t with
  | nil =>
    cases u with
    | nil => rfl
    | cons c u => exact List.dropWhile_cons_of_neg (by simp [hu c rfl])
  | cons d t ih =>
    by_cases h : p d
    · rw [List.cons_append, List.dropWhile_cons_of_pos h, List.dropWhile_cons_of_pos h, ih]
    · rw [List.cons_append, List.dropWhile_cons_of_neg h, List.dropWhile_cons_of_neg h, List.cons_append]

/-- A run is read as far as it goes, -/
theorem takeWhile_run {run : Text} (hrun : ∀ c ∈ run, p c = true) (hu : ∀ c ∈ u.head?, p c = false) :
    (run ++ u).takeWhile p = run := by
  rw [takeWhile_append_of_head hu, List.takeWhile_eq_self_iff.mpr hrun]

/-- and what stands behind it is left. -/
theorem dropWhile_run {run : Text} (hrun : ∀ c ∈ run, p c = true) (hu : ∀ c ∈ u.head?, p c = false) :
    (run ++ u).dropWhile p = u := by
  rw [dropWhile_append_of_head hu, List.dropWhile_eq_nil_iff.mpr hrun, List.nil_append]

end Errand.Text
