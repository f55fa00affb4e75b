/-
  Errand.Proofs.Wildcard.Locality — how far the readers of a marker look.

  A bracket stops each of the small readers, so what stands in front of one is read in the
  same way whatever follows (`AtBracket`). That is all that is known of the head of a marker
  (`MarkerHead.read_local`) and of the word that metadata begin with (`metadataMark?_append`).
-/

import Errand.Proofs.Text.Readers
import Errand.Proofs.Text.Runs
import Errand.Wildcard.Markup

namespace Errand

/-- A text that begins with a bracket, unless it is empty. -/
def AtBracket (u : Text) : Prop := ∀ c ∈ u.head?, c = '\x7b' ∨ c = '\x7d'

theorem atBracket_open (t : Text) : AtBracket (.char '\x7b' :: t) := by
  intro c hc
  cases hc
  exact Or.inl rfl

theorem atBracket_close (t : Text) : AtBracket (.char '\x7d' :: t) := by
  intro c hc
  cases hc
  exact Or.inr rfl

/-- No run goes on over a bracket that is not of its class. -/
theorem AtBracket.ends {u : Text} (hu : AtBracket u) {p : CodePoint → Bool} (hopen : p (.char '\x7b') = false)
    (hclose : p (.char '\x7d') = false) : ∀ c ∈ u.head?, p c = false := by
  intro c hc
  rcases hu c hc with rfl | rfl
  · exact hopen
  · exact hclose

/-! ## The small readers -/

namespace Reader
variable {u : Text}

theorem dropSpaces_append (hu : AtBracket u) (t : Text) : dropSpaces (t ++ u) = dropSpaces t ++ u :=
  Text.dropWhile_append_of_head (hu.ends (by decide) (by decide)) t

theorem smallRun_append (hu : AtBracket u) (t : Text) : smallRun (t ++ u) = ((smallRun t).1, (smallRun t).2 ++ u) := by
  have hsmall : ∀ c ∈ u.head?, isSmall c = false := hu.ends (by decide) (by decide)
  rw [smallRun, Text.takeWhile_append_of_head hsmall, Text.dropWhile_append_of_head hsmall, smallRun]

theorem char?_append (hu : AtBracket u) {c : CodePoint} (hopen : c ≠ '\x7b') (hclose : c ≠ '\x7d') (t : Text) :
    char? c (t ++ u) = (char? c t).map (· ++ u) := by
  cases t with
  | cons d t =>
    by_cases hd : d = c
    · simp [char?, hd]
    · simp [char?, hd]
  | nil =>
    rw [List.nil_append]
    cases u with
    | nil => rfl
    | cons d u =>
      have hd : d ≠ c := by
        rintro rfl
        exact (hu d rfl).elim hopen hclose
      simp [char?, hd]

/-- A keyword without brackets is found in front of the bracket or not at all. -/
theorem keyword?_append (hu : AtBracket u) {word : Text} (hword : ∀ c ∈ word, c ≠ '\x7b' ∧ c ≠ '\x7d') (t : Text) :
    keyword? word (t ++ u) = (keyword? word t).map (· ++ u) := by
  ext after
  rw [keyword?_eq_some_iff, Option.map_eq_some_iff]
  constructor
  · rintro ⟨htext, hend⟩
    rcases List.append_eq_append_iff.mp htext with ⟨x, rfl, hx⟩ | ⟨a, rfl, rfl⟩
    · -- the word would go on over the bracket
      rcases x with _ | ⟨c, x⟩
      · refine ⟨[], keyword?_eq_some_iff.mpr ⟨by simp, ?_⟩, hx⟩
        intro c hc
        cases hc
      · have hc := hword c (List.mem_append_right _ List.mem_cons_self)
        rw [hx] at hu
        exact absurd (hu c rfl) (by simp [hc.1, hc.2])
    · refine ⟨a, keyword?_eq_some_iff.mpr ⟨rfl, ?_⟩, rfl⟩
      intro c hc
      apply hend
      rw [List.head?_append, Option.mem_def.mp hc]
      rfl
  · rintro ⟨a, ha, rfl⟩
    obtain ⟨rfl, hend⟩ := keyword?_eq_some_iff.mp ha
    refine ⟨List.append_assoc _ _ _, ?_⟩
    cases a with
    | nil => exact hu.ends (by decide) (by decide)
    | cons d a => exact hend

end Reader

open Reader

theorem metadataMark?_append {u : Text} (hu : AtBracket u) (t : Text) :
    metadataMark? (t ++ u) = (metadataMark? t).map (· ++ u) := by
  rw [metadataMark?, keyword?_append hu (by decide), metadataMark?]
  cases keyword? "meta".text t with
  | none => rfl
  | some after =>
    show char? ':' (dropSpaces (after ++ u)) = (char? ':' (dropSpaces after)).map (· ++ u)
    rw [dropSpaces_append hu, char?_append hu (by decide) (by decide)]

/-- The mark itself is all it takes: what follows does not matter. -/
theorem metadataMark?_append_of_some {t inside : Text} (h : metadataMark? t = some inside) (u : Text) :
    metadataMark? (t ++ u) = some (inside ++ u) := by
  obtain ⟨after, hword, hcolon⟩ := Option.bind_eq_some_iff.mp h
  obtain ⟨rfl, hend⟩ := keyword?_eq_some_iff.mp hword
  have hafter := char?_eq_some_iff.mp hcolon
  have hdrop : dropSpaces (after ++ u) = .char ':' :: (inside ++ u) := by
    rw [dropSpaces] at hafter ⊢
    rw [List.dropWhile_append, hafter]
    rfl
  have hne : after ≠ [] := by
    rintro rfl
    cases hafter
  have hword' : keyword? "meta".text ("meta".text ++ after ++ u) = some (after ++ u) := by
    refine keyword?_eq_some_iff.mpr ⟨List.append_assoc _ _ _, ?_⟩
    obtain ⟨c, after, rfl⟩ := List.exists_cons_of_ne_nil hne
    exact hend
  rw [metadataMark?, hword', Option.bind_some, hdrop]
  rfl

/-- The mark is read from the text in front of the metadata. -/
theorem exists_of_metadataMark? {t inside : Text} (h : metadataMark? t = some inside) :
    ∃ mark, t = mark ++ inside ∧ metadataMark? mark = some [] := by
  obtain ⟨after, hword, hcolon⟩ := Option.bind_eq_some_iff.mp h
  obtain ⟨rfl, hend⟩ := keyword?_eq_some_iff.mp hword
  have hafter := char?_eq_some_iff.mp hcolon
  have hsplit : after = after.takeWhile isSpace ++ .char ':' :: inside := by
    rw [← hafter, dropSpaces, List.takeWhile_append_dropWhile]
  have hspaces : ∀ c ∈ after.takeWhile isSpace, isSpace c = true := fun c hc => List.mem_takeWhile_imp hc
  generalize after.takeWhile isSpace = spaces at hsplit hspaces
  subst hsplit
  refine ⟨"meta".text ++ (spaces ++ [.char ':']), by simp, ?_⟩
  have hword' : keyword? "meta".text ("meta".text ++ (spaces ++ [.char ':'])) = some (spaces ++ [.char ':']) := by
    refine keyword?_eq_some_iff.mpr ⟨rfl, ?_⟩
    cases spaces with
    | nil => exact hend
    | cons c spaces => exact hend
  rw [metadataMark?, hword', Option.bind_some, dropSpaces, List.dropWhile_append_of_pos hspaces]
  rfl

/-- No spaces stand in front of the mark. -/
theorem dropSpaces_append_of_mark {t inside : Text} (h : metadataMark? t = some inside) (u : Text) :
    dropSpaces (t ++ u) = t ++ u := by
  obtain ⟨after, hword, -⟩ := Option.bind_eq_some_iff.mp h
  rw [(keyword?_eq_some_iff.mp hword).1]
  rfl

/-! ## The head -/

namespace MarkerHead
variable {u : Text}

theorem readMark_append (hu : AtBracket u) (t : Text) : readMark (t ++ u) = ((readMark t).1, (readMark t).2 ++ u) := by
  rw [readMark, char?_append hu (by decide) (by decide), readMark]
  cases char? '?' t with
  | none => rfl
  | some after => rfl

theorem readSubtype_append (hu : AtBracket u) (t : Text) :
    readSubtype (t ++ u) = ((readSubtype t).1, (readSubtype t).2 ++ u) := by
  rw [readSubtype, smallRun_append hu, readSubtype]
  rcases smallRun t with ⟨_ | ⟨c, word⟩, after⟩
  · rfl
  · by_cases hword : isReserved (c :: word) = true
    · simp [hword]
    · simp [hword]

theorem readNumber?_append (hu : AtBracket u) (t : Text) :
    readNumber? (t ++ u) = (readNumber? t).map fun (number, after) => (number, after ++ u) := by
  have hdigit : ∀ c ∈ u.head?, isDigit c = false := hu.ends (by decide) (by decide)
  rw [readNumber?, digits?, Text.takeWhile_append_of_head hdigit, Text.dropWhile_append_of_head hdigit, readNumber?,
    digits?]
  dsimp only
  by_cases hrun : ((t.takeWhile isDigit).isEmpty || decide (maxDigits < (t.takeWhile isDigit).length)) = true
  · rw [if_pos hrun, if_pos hrun]
    by_cases hempty : (t.takeWhile isDigit).isEmpty = true
    · simp [hempty]
    · simp [hempty]
  · rw [if_neg hrun, if_neg hrun]
    rfl

/-- A head in front of a bracket is one in front of any other text that begins so. -/
theorem read_local {u' x after : Text} {head : MarkerHead} (hu : AtBracket u) (hu' : AtBracket u')
    (h : read (x ++ u) = .ok (some (head, after))) :
    ∃ a, after = a ++ u ∧ read (x ++ u') = .ok (some (head, a ++ u')) := by
  rw [read, dropSpaces_append hu, smallRun_append hu] at h
  rw [read, dropSpaces_append hu', smallRun_append hu']
  dsimp only at h ⊢
  rw [readMark_append hu] at h
  rw [readMark_append hu']
  dsimp only at h ⊢
  rw [dropSpaces_append hu, readSubtype_append hu] at h
  rw [dropSpaces_append hu', readSubtype_append hu']
  dsimp only at h ⊢
  rw [dropSpaces_append hu, readNumber?_append hu] at h
  rw [dropSpaces_append hu', readNumber?_append hu']
  generalize (smallRun (dropSpaces x)).1 = name at h ⊢
  generalize readNumber? _ = number at h ⊢
  rcases name with _ | ⟨c, name⟩
  · cases h
  · rcases number with _ | ⟨number, a⟩
    · cases h
    · cases h
      exact ⟨a, rfl, rfl⟩

theorem read_local_none {u' x : Text} (hu : AtBracket u) (hu' : AtBracket u') (h : read (x ++ u) = .ok none) :
    read (x ++ u') = .ok none := by
  rw [read, dropSpaces_append hu, smallRun_append hu] at h
  rw [read, dropSpaces_append hu', smallRun_append hu']
  dsimp only at h ⊢
  rw [readMark_append hu] at h
  generalize (smallRun (dropSpaces x)).1 = name at h ⊢
  rcases name with _ | ⟨c, name⟩
  · rfl
  · split at h
    · rename_i heq
      cases heq
    · cases h
    · cases h

end MarkerHead

end Errand
