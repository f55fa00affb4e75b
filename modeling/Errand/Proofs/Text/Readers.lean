/-
  Errand.Proofs.Text.Readers — the small readers turned round.

  What a reader found, given the text, is a statement about how the text is put together:
  here for names, with what can be said of the classes of characters they are made of.
-/

import Errand.Proofs.Text.Runs
import Errand.Proofs.Text.Trimming
import Errand.Text.Reader
import Mathlib.Data.List.TakeWhile

namespace Errand

namespace Reader

/-! ## Classes of characters -/

theorem toNat_of_isSmall {c : CodePoint} (h : isSmall c = true) : 97 ≤ c.toNat ∧ c.toNat ≤ 122 := by
  simp only [isSmall, Bool.and_eq_true, decide_eq_true_eq] at h
  exact h

theorem toNat_of_isDigit {c : CodePoint} (h : isDigit c = true) : 48 ≤ c.toNat ∧ c.toNat ≤ 57 := by
  simp only [isDigit, Bool.and_eq_true, decide_eq_true_eq] at h
  exact h

theorem toNat_of_isSpace {c : CodePoint} (h : isSpace c = true) : c.toNat ≤ 32 := by
  simp only [isSpace, Bool.or_eq_true, beq_iff_eq] at h
  rcases h with ((((rfl | rfl) | rfl) | rfl) | rfl) | rfl
  all_goals decide

theorem not_space_of_small {c : CodePoint} (h : isSmall c = true) : isSpace c = false := by
  refine Bool.eq_false_iff.mpr ?_
  intro hspace
  have := toNat_of_isSmall h
  have := toNat_of_isSpace hspace
  omega

theorem not_space_of_digit {c : CodePoint} (h : isDigit c = true) : isSpace c = false := by
  refine Bool.eq_false_iff.mpr ?_
  intro hspace
  have := toNat_of_isDigit h
  have := toNat_of_isSpace hspace
  omega

theorem not_small_of_digit {c : CodePoint} (h : isDigit c = true) : isSmall c = false := by
  refine Bool.eq_false_iff.mpr ?_
  intro hsmall
  have := toNat_of_isDigit h
  have := toNat_of_isSmall hsmall
  omega

theorem ne_of_class {p : CodePoint → Bool} {c d : CodePoint} (hc : p c = true) (hd : p d = false) : c ≠ d := by
  rintro rfl
  rw [hd] at hc
  cases hc

theorem isQuote_eq_false {c : CodePoint} (hsingle : c ≠ '\'') (hdouble : c ≠ '"') : isQuote c = false := by
  rw [isQuote, beq_false_of_ne hsingle, beq_false_of_ne hdouble]
  rfl

/-- The characters that a name may begin with. -/
theorem toNat_of_isNameStart {c : CodePoint} (h : (isLetter c || c == '_') = true) :
    (65 ≤ c.toNat ∧ c.toNat ≤ 90) ∨ c.toNat = 95 ∨ (97 ≤ c.toNat ∧ c.toNat ≤ 122) := by
  simp only [isLetter, Bool.or_eq_true, Bool.and_eq_true, decide_eq_true_eq, beq_iff_eq] at h
  rcases h with (h | h) | rfl
  · exact Or.inr (Or.inr h)
  · exact Or.inl h
  · exact Or.inr (Or.inl rfl)

theorem not_digit_of_isNameStart {c : CodePoint} (h : (isLetter c || c == '_') = true) : isDigit c = false := by
  refine Bool.eq_false_iff.mpr ?_
  intro hdigit
  have := toNat_of_isNameStart h
  have := toNat_of_isDigit hdigit
  omega

theorem not_space_of_isNameStart {c : CodePoint} (h : (isLetter c || c == '_') = true) : isSpace c = false := by
  refine Bool.eq_false_iff.mpr ?_
  intro hspace
  have := toNat_of_isNameStart h
  have := toNat_of_isSpace hspace
  omega

/-! ## Names -/

theorem name?_spec {t word after : Text} (h : name? t = some (word, after)) :
    t = word ++ after ∧ word ≠ [] ∧ (∀ c ∈ word, isNameChar c = true) ∧ ∀ c ∈ after.head?, isNameChar c = false := by
  obtain ⟨c, rest, rfl, hc, rfl, rfl⟩ := name?_eq_some h
  have hname : isNameChar c = true := by
    rw [isNameChar, Bool.or_right_comm, hc, Bool.true_or]
  refine ⟨?_, List.cons_ne_nil _ _, List.forall_mem_cons.mpr ⟨hname, fun d hd => List.mem_takeWhile_imp hd⟩, ?_⟩
  · rw [List.cons_append, List.takeWhile_append_dropWhile]
  · exact Text.head_dropWhile isNameChar rest

theorem isNameStart_of_name? {c : CodePoint} {rest word after : Text} (h : name? (c :: rest) = some (word, after)) :
    (isLetter c || c == '_') = true := by
  obtain ⟨_, _, he, hc, -, -⟩ := name?_eq_some h
  rwa [← (List.cons.inj he).1] at hc

/-- A name that was found is one by itself, -/
theorem name?_word {t word after : Text} (h : name? t = some (word, after)) : name? word = some (word, []) := by
  obtain ⟨c, rest, rfl, hc, rfl, rfl⟩ := name?_eq_some h
  have hrun : ∀ d ∈ rest.takeWhile isNameChar, isNameChar d = true := fun d hd => List.mem_takeWhile_imp hd
  rw [name?, if_pos hc, List.takeWhile_eq_self_iff.mpr hrun, List.dropWhile_eq_nil_iff.mpr hrun]

/-- and one in front of anything that does not continue it. -/
theorem name?_append {word rest : Text} (h : name? word = some (word, []))
    (hrest : ∀ c ∈ rest.head?, isNameChar c = false) : name? (word ++ rest) = some (word, rest) := by
  obtain ⟨c, letters, rfl, hc, hword, hend⟩ := name?_eq_some h
  rw [List.cons_append, name?, if_pos hc, Text.takeWhile_append_of_head hrest, Text.dropWhile_append_of_head hrest,
    ← hword, ← hend, List.nil_append]

end Reader

end Errand
