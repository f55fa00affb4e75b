/-
  Errand.Proofs.Task.Tidying — text as one would write it.

  Tidying takes spaces out of a text: those in front of another space, and then those in front
  of a mark. At the ends it takes all blanks. What it leaves has nothing of this kind
  (`IsTidy`), and a text with nothing of this kind stays as it is, so tidying twice is tidying
  once. No character that one sees is lost, and two of them come together only if there were
  nothing but spaces between them, and a mark behind those (`tidy_normal`).
-/

import Errand.Proofs.Text.Runs
import Errand.Proofs.Text.Trimming
import Errand.Task.Basic
import Mathlib.Data.List.Chain

namespace Errand.Text

/-! ## Spaces in front of characters of a class -/

/-- The text without the spaces right in front of characters of a class. -/
def closedUp (p : CodePoint → Bool) : Text → Text
  | [] => []
  | c :: rest => if c = ' ' && rest.head?.any p then closedUp p rest else c :: closedUp p rest

theorem singleSpaces_eq (t : Text) : singleSpaces t = closedUp (· == .char ' ') t := by
  induction t with
  | nil => rfl
  | cons c rest ih =>
    rw [singleSpaces, closedUp, ih]
    cases rest with
    | nil => rfl
    | cons d rest => rfl

theorem closeMarks_eq (t : Text) : closeMarks t = closedUp isCloseMark t := by
  induction t with
  | nil => rfl
  | cons c rest ih => rw [closeMarks, closedUp, ih]

section
variable {p : CodePoint → Bool}

/-- Behind a character that stays, the rest is closed up on its own. -/
theorem closedUp_append {c : CodePoint} {v : Text} (h : c = ' ' → v.head?.any p = false) (u : Text) :
    closedUp p (u ++ c :: v) = closedUp p (u ++ [c]) ++ closedUp p v := by
  induction u with
  | nil =>
    have hstays : (decide (c = ' ') && v.head?.any p) = false := by
      by_cases hc : c = ' '
      · rw [h hc, Bool.and_false]
      · rw [decide_eq_false hc, Bool.false_and]
    simp [closedUp, hstays]
  | cons d u ih =>
    have hhead : (u ++ c :: v).head? = (u ++ [c]).head? := by cases u <;> rfl
    rw [List.cons_append, List.cons_append, closedUp, closedUp, hhead, ih]
    split
    · rfl
    · rfl

/-- What closing up leaves of a text in front of a character. -/
def leftOf (p : CodePoint → Bool) (u : Text) (c : CodePoint) : Text := (closedUp p (u ++ [c])).dropLast

/-- The last character stays. -/
theorem closedUp_last (u : Text) (c : CodePoint) : closedUp p (u ++ [c]) = leftOf p u c ++ [c] := by
  have hlast : (closedUp p (u ++ [c])).getLast? = some c := by
    induction u with
    | nil => simp [closedUp]
    | cons d u ih =>
      rw [List.cons_append, closedUp]
      split
      · exact ih
      · rw [List.getLast?_cons, ih]
        rfl
  obtain ⟨front, hfront⟩ := List.getLast?_eq_some_iff.mp hlast
  rw [leftOf, hfront, List.dropLast_concat]

theorem closedUp_sublist (t : Text) : (closedUp p t).Sublist t := by
  induction t with
  | nil => exact .slnil
  | cons c rest ih =>
    rw [closedUp]
    split
    · exact ih.cons c
    · exact ih.cons_cons c

/-- Only spaces are taken out. -/
theorem filter_closedUp (t : Text) : (closedUp p t).filter (· ≠ .char ' ') = t.filter (· ≠ .char ' ') := by
  induction t with
  | nil => rfl
  | cons c rest ih =>
    rw [closedUp]
    split
    · rename_i h
      have hc : c = ' ' := by simp_all
      rw [ih, hc]
      rfl
    · rw [List.filter_cons, List.filter_cons, ih]

theorem closedUp_eq_self {t : Text} (h : t.IsChain fun (a b : CodePoint) => a = ' ' → p b = false) : closedUp p t = t := by
  induction t with
  | nil => rfl
  | cons c rest ih =>
    obtain ⟨hnext, hrest⟩ := List.isChain_cons.mp h
    have hstays : (decide (c = ' ') && rest.head?.any p) = false := by
      cases rest with
      | nil => exact Bool.and_false _
      | cons d rest =>
        by_cases hc : c = ' '
        · simp [hnext d rfl hc]
        · simp [hc]
    rw [closedUp, hstays, ih hrest]
    rfl

/-- If spaces in a row are spaces in front of the class, none of these is left, and no spaces in
    a row. -/
theorem closedUp_isChain {t : Text} (h : t.IsChain fun (a b : CodePoint) => a = ' ' → b = ' ' → p b = true) :
    (closedUp p t).IsChain fun (a b : CodePoint) => a = ' ' → b ≠ ' ' ∧ p b = false := by
  induction t with
  | nil => exact .nil
  | cons c rest ih =>
    obtain ⟨hnext, hrest⟩ := List.isChain_cons.mp h
    rw [closedUp]
    split
    · exact ih hrest
    · rename_i hstays
      refine List.isChain_cons.mpr ⟨?_, ih hrest⟩
      -- what follows a space that stays is not in the class, so it is no space and stays itself
      rintro b hb rfl
      cases rest with
      | nil => cases hb
      | cons d rest =>
        have hd : p d = false := by simpa using hstays
        have hspace : d ≠ ' ' := by
          intro e
          rw [hnext d rfl rfl e] at hd
          cases hd
        have hhead : closedUp p (d :: rest) = d :: closedUp p rest := by simp [closedUp, hspace]
        rw [hhead] at hb
        cases hb
        exact ⟨hspace, hd⟩

end

/-! ## What one sees -/

/-- The characters that are no blanks. -/
def visible (t : Text) : Text := t.filter (!isBlank ·)

theorem visible_eq (t : Text) : visible t = visible (t.filter (· ≠ .char ' ')) := by
  rw [visible, visible, List.filter_filter]
  refine List.filter_congr fun c _ => ?_
  by_cases hc : c = ' '
  · rw [hc]
    rfl
  · simp [hc]

theorem visible_closedUp (p : CodePoint → Bool) (t : Text) : visible (closedUp p t) = visible t := by
  rw [visible_eq, filter_closedUp, ← visible_eq]

theorem visible_dropWhile (t : Text) : visible (t.dropWhile isBlank) = visible t := by
  induction t with
  | nil => rfl
  | cons c t ih =>
    by_cases hc : isBlank c = true
    · rw [List.dropWhile_cons_of_pos hc, ih, visible, visible, List.filter_cons_of_neg (by simp [hc])]
    · rw [List.dropWhile_cons_of_neg hc]

theorem visible_trimLeft (t : Text) : visible (trimLeft t) = visible t := visible_dropWhile t

theorem visible_reverse (t : Text) : visible t.reverse = (visible t).reverse := List.filter_reverse

theorem visible_trimRight (t : Text) : visible (trimRight t) = visible t := by
  rw [trimRight, visible_reverse, visible_dropWhile, visible_reverse, List.reverse_reverse]

/-- Trimming stops at a visible character. -/
theorem trim_around {m : Text} (hne : m ≠ []) (hm : Trimmed m) (l r : Text) :
    trim (l ++ (m ++ r)) = trimLeft l ++ (m ++ trimRight r) := by
  have hhead : ∀ c ∈ (m ++ r).head?, isBlank c = false := by
    obtain ⟨c, rest, rfl⟩ := List.exists_cons_of_ne_nil hne
    exact hm.1
  have hlast : ∀ c ∈ (m.reverse ++ (l.dropWhile isBlank).reverse).head?, isBlank c = false := by
    intro c hc
    rw [List.head?_append_of_ne_nil _ (by simpa using hne), List.head?_reverse] at hc
    exact hm.2 c hc
  rw [trim, trimLeft, dropWhile_append_of_head hhead, trimRight, List.reverse_append, List.reverse_append,
    List.append_assoc, dropWhile_append_of_head hlast]
  simp only [List.reverse_append, List.reverse_reverse, List.append_assoc, trimLeft, trimRight]

/-! ## Tidy text -/

/-- Nothing is left to be tidied. -/
structure IsTidy (t : Text) : Prop where
  single : t.IsChain fun (a b : CodePoint) => ¬(a = ' ' ∧ b = ' ')
  closed : t.IsChain fun (a b : CodePoint) => ¬(a = ' ' ∧ isCloseMark b = true)
  trimmed : Trimmed t

theorem tidy_eq (t : Text) : tidy t = trim (closedUp isCloseMark (closedUp (· == .char ' ') t)) := by
  rw [tidy, closeMarks_eq, singleSpaces_eq]

theorem isTidy_tidy (t : Text) : IsTidy (tidy t) := by
  have hsingle : (closedUp (· == .char ' ') t).IsChain fun (a b : CodePoint) => a = ' ' → b = ' ' → isCloseMark b = true := by
    have hall : t.IsChain fun (a b : CodePoint) => a = ' ' → b = ' ' → (b == .char ' ') = true :=
      (List.isChain_isInfix t).imp fun a b _ _ hb => beq_iff_eq.mpr hb
    exact (closedUp_isChain hall).imp fun a b h ha hb => absurd hb (h ha).1
  have hclosed := closedUp_isChain hsingle
  obtain ⟨left, right, ht, -, -⟩ := exists_trim (closedUp isCloseMark (closedUp (· == .char ' ') t))
  have hkept := hclosed.infix ⟨left, right, ht.symm⟩
  rw [tidy_eq]
  refine ⟨hkept.imp fun a b h => ?_, hkept.imp fun a b h => ?_, trim_trimmed _⟩
  · rintro ⟨ha, hb⟩
    exact (h ha).1 hb
  · rintro ⟨ha, hb⟩
    rw [(h ha).2] at hb
    cases hb

theorem IsTidy.tidy_eq_self {t : Text} (h : IsTidy t) : tidy t = t := by
  have hsingle : closedUp (· == .char ' ') t = t :=
    closedUp_eq_self (h.single.imp fun a b hab ha => beq_eq_false_iff_ne.mpr fun hb => hab ⟨ha, hb⟩)
  have hclosed : closedUp isCloseMark t = t :=
    closedUp_eq_self (h.closed.imp fun a b hab ha => Bool.eq_false_iff.mpr fun hb => hab ⟨ha, hb⟩)
  rw [tidy_eq, hsingle, hclosed, trim_eq_self h.trimmed]

theorem visible_tidy (t : Text) : visible (tidy t) = visible t := by
  rw [tidy_eq, trim, visible_trimRight, visible_trimLeft, visible_closedUp, visible_closedUp]

/-! ## What stands between two visible characters -/

section
variable {a b : CodePoint} {gap : Text}

theorem ne_space_of_visible {c : CodePoint} (hc : isBlank c = false) : c ≠ ' ' := by
  rintro rfl
  cases hc

section
variable {p : CodePoint → Bool} {c : CodePoint}

/-- Up to a visible character a text is closed up on its own, and that character stays. -/
theorem closedUp_visible (hc : isBlank c = false) (u v : Text) :
    closedUp p (u ++ c :: v) = leftOf p u c ++ c :: closedUp p v := by
  rw [closedUp_append fun h => absurd h (ne_space_of_visible hc), closedUp_last, List.append_assoc]
  rfl

theorem leftOf_sublist (u : Text) : (leftOf p u c).Sublist u := by
  have hsub := closedUp_sublist (p := p) (u ++ [c])
  rw [closedUp_last] at hsub
  exact (List.append_sublist_append_right _).mp hsub

theorem filter_leftOf (u : Text) : (leftOf p u c).filter (· ≠ .char ' ') = u.filter (· ≠ .char ' ') := by
  have hfilter := filter_closedUp (p := p) (u ++ [c])
  rw [closedUp_last, List.filter_append, List.filter_append] at hfilter
  exact List.append_cancel_right hfilter

theorem visible_leftOf (u : Text) : visible (leftOf p u c) = visible u := by
  rw [visible_eq, filter_leftOf, ← visible_eq]

end

/-- Of spaces in a row one is left. -/
theorem leftOf_spaces (hne : gap ≠ []) (hspaces : ∀ c ∈ gap, c = ' ') (hb : b ≠ ' ') :
    leftOf (· == .char ' ') gap b = [.char ' '] := by
  have hclosed : closedUp (· == .char ' ') (gap ++ [b]) = [.char ' ', b] := by
    induction gap with
    | nil => exact absurd rfl hne
    | cons c gap ih =>
      obtain ⟨rfl, hrest⟩ := List.forall_mem_cons.mp hspaces
      cases gap with
      | nil => simp [closedUp, hb]
      | cons d gap =>
        have hd : d = ' ' := hrest d List.mem_cons_self
        rw [List.cons_append, closedUp, if_pos (by simp [hd])]
        exact ih (List.cons_ne_nil _ _) hrest
  rw [leftOf, hclosed]
  rfl

/-- A gap is closed up to nothing if it is one of spaces in front of a mark, or nothing before. -/
theorem gap_closes_iff (hb : isBlank b = false) : leftOf isCloseMark (leftOf (· == .char ' ') gap b) b = [] ↔
    gap = [] ∨ ((∀ c ∈ gap, c = ' ') ∧ isCloseMark b = true) := by
  by_cases hne : gap = []
  · subst hne
    refine iff_of_true ?_ (Or.inl rfl)
    rw [List.sublist_nil.mp (leftOf_sublist [])]
    exact List.sublist_nil.mp (leftOf_sublist [])
  by_cases hspaces : ∀ c ∈ gap, c = ' '
  · rw [leftOf_spaces hne hspaces (ne_space_of_visible hb)]
    by_cases hmark : isCloseMark b = true
    · exact iff_of_true (by simp [leftOf, closedUp, hmark]) (Or.inr ⟨hspaces, hmark⟩)
    · exact iff_of_false (by simp [leftOf, closedUp, hmark]) (by simp [hne, hmark])
  · refine iff_of_false (fun hnil => hspaces ?_) (by simp [hne, hspaces])
    -- all that is not a space is left
    have hkept := filter_leftOf (p := isCloseMark) (c := b) (leftOf (· == .char ' ') gap b)
    rw [hnil, filter_leftOf] at hkept
    simpa using hkept.symm

end

/-- Two visible characters that follow each other are as far apart in the tidy text, except that
    spaces in front of a mark are gone. -/
theorem tidy_between {front gap back : Text} {a b : CodePoint} (ha : isBlank a = false) (hb : isBlank b = false)
    (hgap : ∀ c ∈ gap, isBlank c = true) : ∃ front' gap' back',
      tidy (front ++ a :: (gap ++ b :: back)) = front' ++ a :: (gap' ++ b :: back') ∧
      visible front' = visible front ∧ visible back' = visible back ∧ (∀ c ∈ gap', isBlank c = true) ∧
      (gap' = [] ↔ gap = [] ∨ ((∀ c ∈ gap, c = ' ') ∧ isCloseMark b = true)) := by
  refine ⟨trimLeft (leftOf isCloseMark (leftOf (· == .char ' ') front a) a),
    leftOf isCloseMark (leftOf (· == .char ' ') gap b) b,
    trimRight (closedUp isCloseMark (closedUp (· == .char ' ') back)), ?_, ?_, ?_, fun c hc => ?_, gap_closes_iff hb⟩
  · have hends (gap' : Text) : Trimmed (a :: (gap' ++ [b])) := by
      refine ⟨fun c hc => by cases hc; exact ha, fun c hc => ?_⟩
      rw [← List.cons_append, List.getLast?_concat] at hc
      cases hc
      exact hb
    have htrim (front' gap' back' : Text) := trim_around (List.cons_ne_nil _ _) (hends gap') front' back'
    simp only [List.cons_append, List.append_assoc, List.nil_append] at htrim
    rw [tidy_eq, closedUp_visible ha, closedUp_visible ha, closedUp_visible hb, closedUp_visible hb, htrim]
  · rw [visible_trimLeft, visible_leftOf, visible_leftOf]
  · rw [visible_trimRight, visible_closedUp, visible_closedUp]
  · exact hgap c ((leftOf_sublist gap).subset ((leftOf_sublist _).subset hc))

/-- Tidy text has single spaces, none in front of a mark and no blanks at its ends; it has the
    visible characters of the text it comes from, with a gap wherever there was one unless that
    was of spaces in front of a mark; and it stays as it is. -/
theorem tidy_normal (t : Text) : IsTidy (tidy t) ∧ visible (tidy t) = visible t ∧
    (∀ (front gap back : Text) (a b : CodePoint), t = front ++ a :: (gap ++ b :: back) → isBlank a = false → isBlank b = false →
      (∀ c ∈ gap, isBlank c = true) → ∃ front' gap' back', tidy t = front' ++ a :: (gap' ++ b :: back') ∧
        visible front' = visible front ∧ visible back' = visible back ∧ (∀ c ∈ gap', isBlank c = true) ∧
        (gap' = [] ↔ gap = [] ∨ ((∀ c ∈ gap, c = ' ') ∧ isCloseMark b = true))) ∧
    tidy (tidy t) = tidy t := by
  refine ⟨isTidy_tidy t, visible_tidy t, ?_, (isTidy_tidy t).tidy_eq_self⟩
  rintro front gap back a b rfl ha hb hgap
  exact tidy_between ha hb hgap

end Errand.Text
