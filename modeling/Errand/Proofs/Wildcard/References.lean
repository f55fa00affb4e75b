/-
  Errand.Proofs.Wildcard.References — the references in clauses put together.

  The clauses of a group are joined by the word and, with spaces around it. No reference
  has a space in it, so the joined clause refers to what its parts refer to, and to
  nothing else (`Group.references_eq`).
-/

import Errand.Proofs.Text.Readers
import Errand.Proofs.Wildcard.Keycodes
import Errand.Wildcard.Group

namespace Errand

/-! ## A space ends a reference -/

section
variable (t u : Text)

theorem small_before_space : (t ++ .char ' ' :: u).takeWhile Reader.isSmall = t.takeWhile Reader.isSmall :=
  Text.takeWhile_append_of_head (fun c hc => by cases hc; decide) t

theorem behind_small_before_space :
    (t ++ .char ' ' :: u).dropWhile Reader.isSmall = t.dropWhile Reader.isSmall ++ .char ' ' :: u :=
  Text.dropWhile_append_of_head (fun c hc => by cases hc; decide) t

theorem digits_before_space : (t ++ .char ' ' :: u).takeWhile Text.isAnyDigit = t.takeWhile Text.isAnyDigit :=
  Text.takeWhile_append_of_head (fun c hc => by cases hc; decide) t

theorem behind_digits_before_space :
    (t ++ .char ' ' :: u).dropWhile Text.isAnyDigit = t.dropWhile Text.isAnyDigit ++ .char ' ' :: u :=
  Text.dropWhile_append_of_head (fun c hc => by cases hc; decide) t

end

theorem readReference?_none {t : Text} (h : ∀ rest, t ≠ .char '<' :: .char '<' :: rest) :
    readReference? t = none := by
  unfold readReference?
  split
  · exact absurd rfl (h _)
  · rfl

/-- Nothing behind a space belongs to a reference in front of it. -/
theorem readReference?_append (t u : Text) : readReference? (t ++ .char ' ' :: u) =
    (readReference? t).map fun (keycode, after) => (keycode, after ++ .char ' ' :: u) := by
  by_cases h : ∃ rest, t = .char '<' :: .char '<' :: rest
  · obtain ⟨rest, rfl⟩ := h
    simp only [readReference?, List.cons_append, small_before_space, behind_small_before_space,
      digits_before_space, behind_digits_before_space]
    -- what stands behind the number decides
    rcases (rest.dropWhile Reader.isSmall).dropWhile Text.isAnyDigit with _ | ⟨a, _ | ⟨b, after⟩⟩
    · simp
    · by_cases ha : a = .char '>'
      · subst ha
        simp
      · simp [ha]
    · by_cases hab : a = .char '>' ∧ b = .char '>'
      · obtain ⟨rfl, rfl⟩ := hab
        simp only [List.cons_append]
        split <;> rfl
      · split
        · rename_i e
          cases e
          exact absurd ⟨rfl, rfl⟩ hab
        · split
          · rename_i e
            cases e
            exact absurd ⟨rfl, rfl⟩ hab
          · rfl
  · rw [readReference?_none fun rest e => h ⟨rest, e⟩, readReference?_none]
    · rfl
    · intro rest e
      rcases t with _ | ⟨a, _ | ⟨b, t⟩⟩
      · simp at e
      · simp at e
      · simp only [List.cons_append, List.cons.injEq] at e
        exact h ⟨t, by rw [e.1, e.2.1]⟩

/-! ## References of texts put together -/

theorem cutReferences_found {t keycode after : Text} (h : readReference? t = some (keycode, after)) :
    cutReferences t = ([], (keycode, (cutReferences after).1) :: (cutReferences after).2) := by
  rcases t with _ | ⟨c, t⟩
  · cases h
  rw [cutReferences]
  split
  · rename_i h'
    rw [h] at h'
    cases h'
    rfl
  · rename_i h'
    rw [h] at h'
    cases h'

theorem cutReferences_none {c : CodePoint} {t : Text} (h : readReference? (c :: t) = none) :
    cutReferences (c :: t) = (c :: (cutReferences t).1, (cutReferences t).2) := by
  rw [cutReferences]
  split
  · rename_i h'
    rw [h] at h'
    cases h'
  · rfl

theorem references_found {t keycode after : Text} (h : readReference? t = some (keycode, after)) :
    references t = keycode :: references after := by
  rw [references, cutReferences_found h]
  rfl

theorem references_none {c : CodePoint} {t : Text} (h : readReference? (c :: t) = none) :
    references (c :: t) = references t := by
  rw [references, cutReferences_none h]
  rfl

theorem references_nil : references [] = [] := by
  rw [references, cutReferences]
  rfl

theorem references_space (t : Text) : references (.char ' ' :: t) = references t :=
  references_none (readReference?_none fun rest e => by cases e)

theorem references_append (t u : Text) : references (t ++ .char ' ' :: u) = references t ++ references u := by
  fun_induction cutReferences t with
  | case1 => rw [List.nil_append, references_space, references_nil, List.nil_append]
  | case2 c t keycode after h _ _ _ ih =>
    have hfound := readReference?_append (c :: t) u
    rw [h, List.cons_append] at hfound
    rw [List.cons_append, references_found hfound, references_found h, ih, List.cons_append]
  | case3 c t h _ _ _ ih =>
    have hnone := readReference?_append (c :: t) u
    rw [h, List.cons_append] at hnone
    rw [List.cons_append, references_none hnone, references_none h, ih]

/-- A reference begins with a mark of its own. -/
theorem references_plain {t : Text} (h : .char '<' ∉ t) : references t = [] := by
  induction t with
  | nil => exact references_nil
  | cons c t ih =>
    rw [List.mem_cons, not_or] at h
    rw [references_none (readReference?_none fun rest e => h.1 (List.cons.inj e).1.symm), ih h.2]

theorem references_join (ts : List Text) : references (Text.join " and ".text ts) = ts.flatMap references := by
  induction ts with
  | nil => exact references_nil
  | cons t ts ih =>
    cases ts with
    | nil => simp [Text.join]
    | cons s more =>
      have hjoin : Text.join " and ".text (t :: s :: more) =
          t ++ .char ' ' :: ("and".text ++ .char ' ' :: Text.join " and ".text (s :: more)) := by
        simp [Text.join, String.text]
      have hand : references "and".text = [] := by
        show references [.char 'a', .char 'n', .char 'd'] = []
        rw [references_none rfl, references_none rfl, references_none rfl, references_nil]
      rw [hjoin, references_append, references_append, hand, ih, List.nil_append]
      rfl

/-- A group refers to what its clauses refer to. -/
theorem Group.references_eq (g : Group) : g.references = g.clauses.flatMap Errand.references :=
  references_join g.clauses

/-! ## One reference -/

/-- What a reference can hold: a name and the digits of a number. -/
def IsKeycode (k : Text) : Prop := ∃ name number, k = name ++ number ∧ name ≠ [] ∧ Small name ∧
  (∀ c ∈ number, Text.isAnyDigit c = true) ∧ 4 ≤ number.length

theorem not_small_of_isAnyDigit {c : CodePoint} (h : Text.isAnyDigit c = true) : Reader.isSmall c = false := by
  refine Bool.eq_false_iff.mpr fun hsmall => ?_
  have hbounds := Reader.toNat_of_isSmall hsmall
  have hruns : ∀ run ∈ Text.digitRuns, run.2 < 97 ∨ 122 < run.1 := by decide
  obtain ⟨v, hv⟩ := Option.isSome_iff_exists.mp h
  obtain ⟨run, hrun, -⟩ := Option.map_eq_some_iff.mp hv
  have hin := List.find?_some hrun
  have hout := hruns run (List.mem_of_find?_eq_some hrun)
  simp only [Bool.and_eq_true, decide_eq_true_eq] at hin
  omega

theorem reference_append (name number after : Text) : reference (name ++ number) ++ after =
    .char '<' :: .char '<' :: (name ++ (number ++ .char '>' :: .char '>' :: after)) := by
  simp only [reference, List.append_assoc]
  rfl

theorem readReference?_of_isKeycode {k : Text} (hk : IsKeycode k) (after : Text) :
    readReference? (reference k ++ after) = some (k, after) := by
  obtain ⟨name, number, rfl, hname, hsmall, hdigits, hlength⟩ := hk
  have hclose : ∀ c ∈ (.char '>' :: .char '>' :: after : Text).head?, Text.isAnyDigit c = false := by
    intro c hc
    cases hc
    decide
  have hnumber : ∀ c ∈ (number ++ .char '>' :: .char '>' :: after : Text).head?, Reader.isSmall c = false := by
    obtain ⟨d, digits, rfl⟩ :=
      List.exists_cons_of_ne_nil (List.length_pos_iff.mp (Nat.lt_of_lt_of_le (by decide) hlength))
    intro c hc
    cases hc
    exact not_small_of_isAnyDigit (hdigits d List.mem_cons_self)
  rw [reference_append]
  simp only [readReference?, Text.takeWhile_run hsmall hnumber, Text.dropWhile_run hsmall hnumber,
    Text.takeWhile_run hdigits hclose, Text.dropWhile_run hdigits hclose]
  rw [if_neg]
  simp only [Bool.or_eq_true, List.isEmpty_iff, decide_eq_true_eq, not_or, hname, not_false_eq_true, true_and]
  omega

/-- A reference that was read is one as it is written. -/
theorem readReference?_spec {t k after : Text} (h : readReference? t = some (k, after)) :
    t = reference k ++ after ∧ IsKeycode k := by
  unfold readReference? at h
  split at h
  · rename_i rest
    dsimp only at h
    split at h
    · rename_i more hmore
      split at h
      · cases h
      · rename_i hshape
        simp only [Bool.or_eq_true, List.isEmpty_iff, decide_eq_true_eq, not_or, Nat.not_lt] at hshape
        cases h
        refine ⟨?_, _, _, rfl, hshape.1, fun c hc => List.mem_takeWhile_imp hc, fun c hc => List.mem_takeWhile_imp hc,
          hshape.2⟩
        rw [reference_append, ← hmore, List.takeWhile_append_dropWhile, List.takeWhile_append_dropWhile]
    · cases h
  · cases h

theorem isKeycode_keycode {name : Text} (hsmall : Small name) (hname : name ≠ []) (n : Nat) :
    IsKeycode (keycode name n) :=
  ⟨name, fourDigits n, rfl, hname, hsmall, fun _ => isAnyDigit_of_fourDigits, fourDigits_length n⟩

/-- A reference behind a text that has none, and a space. -/
theorem references_one {t name : Text} (ht : .char '<' ∉ t) (hsmall : Small name) (hname : name ≠ []) (n : Nat) :
    references (t ++ .char ' ' :: reference (keycode name n)) = [keycode name n] := by
  have hread := readReference?_of_isKeycode (isKeycode_keycode hsmall hname n) []
  rw [List.append_nil] at hread
  rw [references_append, references_plain ht, List.nil_append]
  exact (references_found hread).trans (by rw [references_nil])

/-! ## Replacing one text -/

theorem Text.replaceFrom_inside (old new : Text) (t : Text) : replaceFrom old new t.length t = [] := by
  induction t with
  | nil => rfl
  | cons c t ih => exact ih

/-- Nothing is replaced before the first character of what is replaced. -/
theorem Text.replaceAll_behind {c : CodePoint} {old p : Text} (new : Text) (hp : c ∉ p) :
    replaceAll (c :: old) new (p ++ c :: old) = p ++ new := by
  induction p with
  | nil =>
    have hprefix : (c :: old).isPrefixOf (c :: old) = true := List.isPrefixOf_iff_prefix.mpr (List.prefix_refl _)
    show replaceFrom (c :: old) new 0 (c :: old) = new
    rw [replaceFrom, if_pos hprefix]
    show new ++ replaceFrom (c :: old) new old.length old = new
    rw [replaceFrom_inside, List.append_nil]
  | cons d p ih =>
    rw [List.mem_cons, not_or] at hp
    have hprefix : ¬(c :: old).isPrefixOf (d :: (p ++ c :: old)) = true := by
      intro h
      rw [List.isPrefixOf_iff_prefix, List.cons_prefix_cons] at h
      exact hp.1 h.1
    show replaceFrom (c :: old) new 0 (d :: (p ++ c :: old)) = _
    rw [replaceFrom, if_neg hprefix, List.cons_append]
    exact congrArg (d :: ·) (ih hp.2)

end Errand
