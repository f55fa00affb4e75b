/-
  Errand.Proofs.Wildcard.Insertion — a question mark put in behind the name of a marker.

  A text is cut in two where a name ends (`NameEnd`), and a question mark is put in there. The
  loops that look for the end of metadata and of a clause pass over it like over any other
  character (`closingFrom_question`, `clauseFrom_question`). So a marker in front of the name
  that ends before the question mark is read as before (`Marker.read_behind_question`), and a
  bracket that begins no marker begins none then either (`Marker.read_none_question`).

  The one danger is the name `meta`: a colon behind it makes it the beginning of metadata, for a
  reader outside of all brackets, and the question mark comes in between. But such metadata
  end, since those that the name belongs to do (`NameEnd.closed`).
-/

import Errand.Proofs.Wildcard.Clauses
import Errand.Proofs.Wildcard.Locality
import Errand.Proofs.Wildcard.Spans

namespace Errand
open Errand.Bracket (inFront inFront_inFront)
open Reader (isSmall isSpace dropSpaces)

/-! ## The place -/

/-- The place in a text where the name of a marker in it ends: `z` stands before it and `v`
    behind it. -/
structure NameEnd (n : Marker) (z v : Text) : Prop where
  named : ∃ front spaces, z = front ++ .char '\x7b' :: (spaces ++ n.name) ∧ (∀ c ∈ spaces, isSpace c = true) ∧
    n.text <+: .char '\x7b' :: (spaces ++ n.name) ++ v
  nonempty : n.name ≠ []
  small : ∀ c ∈ n.name, isSmall c = true
  ends : ∃ c w, v = c :: w ∧ isSmall c = false
  /-- If the name could begin metadata, these would end. -/
  closed : ∃ c w, dropSpaces v = c :: w ∧ (c = .char ':' → (Bracket.closing? .curly w).isSome = true)

/-- The last character is a small letter, if there is one. -/
def EndsSmall (z : Text) : Prop := ∀ c ∈ z.getLast?, isSmall c = true

theorem EndsSmall.of_append {front z : Text} (h : EndsSmall (front ++ z)) : EndsSmall z := by
  intro c hc
  apply h
  rw [List.getLast?_append, Option.mem_def.mp hc]
  rfl

theorem EndsSmall.tail {c : CodePoint} {z : Text} (h : EndsSmall (c :: z)) : EndsSmall z :=
  @EndsSmall.of_append [c] z h

/-- Behind spaces there is still what ends in a small letter. -/
theorem EndsSmall.dropSpaces_append {z : Text} (h : EndsSmall z) (hne : z ≠ []) (u : Text) :
    dropSpaces (z ++ u) = dropSpaces z ++ u ∧ dropSpaces z ≠ [] := by
  have hdrop : z.dropWhile isSpace ≠ [] := by
    intro hnil
    have hlast := List.getLast?_eq_some_getLast hne
    have hspace := List.dropWhile_eq_nil_iff.mp hnil _ (List.getLast_mem hne)
    rw [Reader.not_space_of_small (h _ hlast)] at hspace
    cases hspace
  refine ⟨?_, hdrop⟩
  rw [dropSpaces, dropSpaces, List.dropWhile_append, if_neg (by simpa using hdrop)]

namespace NameEnd
variable {n : Marker} {z v : Text}

theorem endsSmall (h : NameEnd n z v) : EndsSmall z := by
  obtain ⟨front, spaces, rfl, -, -⟩ := h.named
  have hlast := List.getLast?_eq_some_getLast h.nonempty
  intro c hc
  rw [← List.cons_append, ← List.append_assoc, List.getLast?_append, hlast] at hc
  cases hc
  exact h.small _ (List.getLast_mem h.nonempty)

theorem ne_nil (h : NameEnd n z v) : z ≠ [] := by
  obtain ⟨front, spaces, rfl, -, -⟩ := h.named
  simp

theorem ne_nil_behind (h : NameEnd n z v) : v ≠ [] := by
  obtain ⟨c, w, rfl, -⟩ := h.ends
  exact List.cons_ne_nil c w

/-- What stands in front of the bracket does not matter. -/
theorem cut (h : NameEnd n z v) : ∃ front s, z = front ++ .char '\x7b' :: s ∧
    ∀ front', NameEnd n (front' ++ .char '\x7b' :: s) v := by
  obtain ⟨front, spaces, rfl, hspaces⟩ := h.named
  exact ⟨front, spaces ++ n.name, rfl, fun front' =>
    ⟨⟨front', spaces, rfl, hspaces⟩, h.nonempty, h.small, h.ends, h.closed⟩⟩

/-- The place is one in a longer text, too. -/
theorem behind (h : NameEnd n z v) (front : Text) : NameEnd n (front ++ z) v := by
  obtain ⟨front', spaces, rfl, hspaces⟩ := h.named
  exact ⟨⟨front ++ front', spaces, (List.append_assoc _ _ _).symm, hspaces⟩, h.nonempty, h.small, h.ends, h.closed⟩

theorem before (h : NameEnd n z v) (back : Text) : NameEnd n z (v ++ back) where
  named := by
    obtain ⟨front, spaces, hz, hspaces, htext⟩ := h.named
    refine ⟨front, spaces, hz, hspaces, ?_⟩
    rw [← List.append_assoc]
    exact htext.trans (List.prefix_append _ _)
  nonempty := h.nonempty
  small := h.small
  ends := by
    obtain ⟨c, w, rfl, hc⟩ := h.ends
    exact ⟨c, w ++ back, rfl, hc⟩
  closed := by
    obtain ⟨c, w, hv, hcolon⟩ := h.closed
    refine ⟨c, w ++ back, ?_, fun hc => ?_⟩
    · rw [dropSpaces] at hv ⊢
      rw [List.dropWhile_append, hv]
      rfl
    · obtain ⟨⟨inside, after⟩, hclosing⟩ := Option.isSome_iff_exists.mp (hcolon hc)
      obtain ⟨hbalanced, rfl⟩ := (Bracket.closing?_eq_some_iff Bracket.Pair.curly_proper).mp hclosing
      rw [List.append_assoc, List.cons_append,
        (Bracket.closing?_eq_some_iff Bracket.Pair.curly_proper).mpr ⟨hbalanced, rfl⟩]
      rfl

/-- If the place is one where metadata could begin, they would end. -/
theorem closed_of_mark (h : NameEnd n z v) {inside : Text} (hmark : metadataMark? ("meta".text ++ v) = some inside) :
    ∃ metadata after, Bracket.closing? .curly inside = some (metadata, after) ∧ after.length < v.length := by
  obtain ⟨after, hword, hcolon⟩ := Option.bind_eq_some_iff.mp hmark
  obtain ⟨htext, -⟩ := Reader.keyword?_eq_some_iff.mp hword
  obtain ⟨c, w, hv, hclosed⟩ := h.closed
  rw [← List.append_cancel_left htext, hv, Reader.char?_eq_some_iff, List.cons.injEq] at hcolon
  obtain ⟨rfl, rfl⟩ := hcolon
  obtain ⟨⟨metadata, after⟩, hclosing⟩ := Option.isSome_iff_exists.mp (hclosed rfl)
  refine ⟨metadata, after, hclosing, ?_⟩
  have hdropped := Reader.length_dropWhile_le isSpace v
  rw [← dropSpaces, hv, Bracket.closing?_eq hclosing, List.length_cons, List.length_append, List.length_cons] at hdropped
  omega

/-- What stands behind spaces and begins with no small letter. -/
theorem head_not_small (h : NameEnd n z v) : ∀ c ∈ v.head?, isSmall c = false := by
  obtain ⟨c, w, rfl, hc⟩ := h.ends
  intro d hd
  cases hd
  exact hc

end NameEnd

/-! ## Two readings -/

/-- What a loop comes to without and with a question mark behind `z`: it ends in `z`, or what it
    goes over has the question mark in it. -/
inductive Agree (ends : Text → Text → Prop) (z v : Text) : Option (Text × Text) → Option (Text × Text) → Prop
  | ended {inside rest after : Text} : z = inside ++ rest → ends rest after →
      Agree ends z v (some (inside, after ++ v)) (some (inside, after ++ .char '?' :: v))
  | passed (o : Option (Text × Text)) : Agree ends z v (inFront z o) (inFront (z ++ [.char '?']) o)

theorem Agree.inFront {ends : Text → Text → Prop} {z v : Text} {o o' : Option (Text × Text)} (s : Text)
    (h : Agree ends z v o o') : Agree ends (s ++ z) v (inFront s o) (inFront s o') := by
  cases h with
  | ended hz hends => exact .ended (by rw [hz, List.append_assoc]) hends
  | passed o =>
    rw [inFront_inFront, inFront_inFront, ← List.append_assoc]
    exact .passed o

/-- What is longer than `z` has the question mark in it. -/
theorem Agree.of_length {ends : Text → Text → Prop} {z v inside after : Text} {o' : Option (Text × Text)}
    (h : Agree ends z v (some (z ++ inside, after)) o') (hne : inside ≠ []) :
    o' = some (z ++ .char '?' :: inside, after) := by
  generalize ho : some (z ++ inside, after) = o at h
  cases h with
  | ended hz =>
    cases ho
    have hlength := congrArg List.length hz
    have hpos := List.length_pos_of_ne_nil hne
    rw [List.length_append, List.length_append] at hlength
    omega
  | passed o =>
    rcases o with _ | ⟨inside', after'⟩
    · cases ho
    · rw [Bracket.inFront, Option.map_some, Option.some.injEq, Prod.mk.injEq] at ho
      obtain ⟨hinside, rfl⟩ := ho
      rw [← List.append_cancel_left hinside]
      show some (z ++ [.char '?'] ++ inside, after) = _
      rw [List.append_assoc]
      rfl

/-- What ends in `z` ends there again. -/
theorem Agree.of_append {ends : Text → Text → Prop} {z v inside a : Text} {o' : Option (Text × Text)}
    (h : Agree ends z v (some (inside, a ++ v)) o') (htext : z ++ v = inside ++ (a ++ v)) (hne : a ≠ []) :
    o' = some (inside, a ++ .char '?' :: v) := by
  generalize ho : some (inside, a ++ v) = o at h
  cases h with
  | ended =>
    rw [Option.some.injEq, Prod.mk.injEq] at ho
    obtain ⟨rfl, ha⟩ := ho
    rw [List.append_cancel_right ha]
  | passed o =>
    rcases o with _ | ⟨inside', after'⟩
    · cases ho
    · rw [Bracket.inFront, Option.map_some, Option.some.injEq, Prod.mk.injEq] at ho
      have hlength := congrArg List.length htext
      have hpos := List.length_pos_of_ne_nil hne
      rw [ho.1] at hlength
      simp only [List.length_append] at hlength
      omega

/-- A loop that goes on in each case. -/
theorem agree_nil {ends : Text → Text → Prop} {v : Text} {o o' : Option (Text × Text)}
    (h : o' = inFront [.char '?'] o) : Agree ends [] v o o' := by
  have hpassed := @Agree.passed ends [] v o
  rw [inFront_nil] at hpassed
  rw [h]
  exact hpassed

theorem closingFrom_open (depth : Nat) (t : Text) : Bracket.closingFrom .curly depth (.char '\x7b' :: t) =
    inFront [.char '\x7b'] (Bracket.closingFrom .curly (depth + 1) t) := by
  rw [Bracket.closingFrom_cons (by decide), if_pos (by decide)]

theorem closingFrom_close (depth : Nat) (t : Text) : Bracket.closingFrom .curly (depth + 1) (.char '\x7d' :: t) =
    inFront [.char '\x7d'] (Bracket.closingFrom .curly depth t) := by
  rw [Bracket.closingFrom_cons (by decide), if_neg (by decide), if_pos (by decide)]

theorem closingFrom_end (t : Text) : Bracket.closingFrom .curly 0 (.char '\x7d' :: t) = some ([], t) := by
  rw [Bracket.closingFrom_cons (by decide), if_neg (by decide), if_pos (by decide)]

theorem closingFrom_plain {c : CodePoint} (hslash : c ≠ '\\') (hopen : c ≠ '\x7b') (hclose : c ≠ '\x7d') (depth : Nat)
    (t : Text) : Bracket.closingFrom .curly depth (c :: t) = inFront [c] (Bracket.closingFrom .curly depth t) := by
  have hopen' : c ≠ Bracket.Pair.curly.opening := hopen
  have hclose' : c ≠ Bracket.Pair.curly.closing := hclose
  rw [Bracket.closingFrom_cons hslash, if_neg hopen', if_neg hclose']

/-- A backslash with nothing behind it or something is no other character. -/
theorem ne_backslash {c : CodePoint} {rest : Text} (hend : c = '\\' → rest = [] → False)
    (hescape : ∀ d more, c = '\\' → rest = d :: more → False) : c ≠ '\\' := by
  intro e
  cases rest with
  | nil => exact hend e rfl
  | cons d more => exact hescape d more e rfl

/-- A pair is closed in front of the question mark, or its inside has it. -/
theorem closingFrom_question {z : Text} (hz : ∀ c ∈ z.getLast?, c ≠ '\\') (v : Text) (depth : Nat) :
    Agree (fun rest after => rest = .char '\x7d' :: after) z v (Bracket.closingFrom .curly depth (z ++ v))
      (Bracket.closingFrom .curly depth (z ++ .char '?' :: v)) := by
  have htail : ∀ {c : CodePoint} {rest : Text}, (∀ d ∈ (c :: rest).getLast?, d ≠ '\\') → ∀ d ∈ rest.getLast?, d ≠ '\\' := by
    intro c rest h d hd
    apply h
    rw [List.getLast?_cons, Option.mem_def.mp hd]
    rfl
  fun_induction Bracket.closingFrom .curly depth z with
  | case1 depth => exact agree_nil (closingFrom_plain (by decide) (by decide) (by decide) depth v)
  | case2 => exact absurd rfl (hz _ rfl)
  | case3 depth c rest ih =>
    have hrest := (ih (htail (htail hz))).inFront [.char '\\', c]
    rwa [← Bracket.closingFrom_escaped, ← Bracket.closingFrom_escaped] at hrest
  | case4 depth rest _ _ ih =>
    have hrest := (ih (htail hz)).inFront [.char '\x7b']
    rwa [← closingFrom_open, ← closingFrom_open] at hrest
  | case5 rest =>
    show Agree _ (.char '\x7d' :: rest) v (Bracket.closingFrom .curly 0 (.char '\x7d' :: (rest ++ v)))
      (Bracket.closingFrom .curly 0 (.char '\x7d' :: (rest ++ .char '?' :: v)))
    rw [closingFrom_end, closingFrom_end]
    exact .ended rfl rfl
  | case6 rest depth _ _ _ ih =>
    have hrest := (ih (htail hz)).inFront [.char '\x7d']
    rwa [← closingFrom_close, ← closingFrom_close] at hrest
  | case7 depth c rest hend hescape hopen hclose ih =>
    have hslash := ne_backslash hend hescape
    have hrest := (ih (htail hz)).inFront [c]
    rwa [← closingFrom_plain hslash hopen hclose, ← closingFrom_plain hslash hopen hclose] at hrest

/-! ## Clauses -/

/-- Whether metadata begin in a text that ends in a small letter is seen in this text, unless it
    is the very word and a colon follows. -/
theorem metadataMark?_append_of_endsSmall {z u : Text} (hz : EndsSmall z) (hmeta : z ≠ "meta".text)
    (hu : ∀ c ∈ u.head?, isSmall c = false) : metadataMark? (z ++ u) = (metadataMark? z).map (· ++ u) := by
  rcases hmark : metadataMark? z with _ | inside
  · refine Option.eq_none_iff_forall_not_mem.mpr ?_
    intro inside hinside
    obtain ⟨after, hword, hcolon⟩ := Option.bind_eq_some_iff.mp hinside
    obtain ⟨htext, hend⟩ := Reader.keyword?_eq_some_iff.mp hword
    rcases List.append_eq_append_iff.mp htext with ⟨x, hx, rfl⟩ | ⟨a, rfl, rfl⟩
    · -- the word goes on over the end of `z`, and there is no small letter
      rcases x with _ | ⟨c, x⟩
      · exact hmeta (by rw [hx, List.append_nil])
      · have hc : c ∈ "meta".text := by
          rw [hx]
          exact List.mem_append_right _ List.mem_cons_self
        have hletters : ∀ d ∈ "meta".text, isSmall d = true := by decide
        have hsmall := hletters c hc
        rw [hu c rfl] at hsmall
        cases hsmall
    · have hne : a ≠ [] := by
        rintro rfl
        exact hmeta (List.append_nil _)
      obtain ⟨hdrop, hne'⟩ := hz.of_append.dropSpaces_append hne u
      rw [hdrop] at hcolon
      obtain ⟨c, rest, hrest⟩ := List.exists_cons_of_ne_nil hne'
      rw [hrest, List.cons_append, Reader.char?_eq_some_iff, List.cons.injEq] at hcolon
      have hend' : ∀ d ∈ a.head?, Reader.isNameChar d = false := by
        obtain ⟨d, a, rfl⟩ := List.exists_cons_of_ne_nil hne
        exact hend
      rw [metadataMark?, Reader.keyword?_eq_some_iff.mpr ⟨rfl, hend'⟩, Option.bind_some, hrest, hcolon.1] at hmark
      cases hmark
  · exact metadataMark?_append_of_some hmark u

theorem metadataMark?_question (v : Text) : metadataMark? ("meta".text ++ .char '?' :: v) = none := rfl

/-- Where no metadata begin, none begin with what follows either, with the question mark or
    without it, unless it is the very word. -/
theorem metadataMark?_question_of_none {z v : Text} (hz : EndsSmall z) (hv : ∀ c ∈ v.head?, isSmall c = false)
    (hmark : metadataMark? z = none) (hmeta : ¬(z = "meta".text ∧ (metadataMark? ("meta".text ++ v)).isSome = true)) :
    metadataMark? (z ++ v) = none ∧ metadataMark? (z ++ .char '?' :: v) = none := by
  by_cases hword : z = "meta".text
  · subst hword
    refine ⟨?_, metadataMark?_question v⟩
    rw [← Option.isNone_iff_eq_none, ← Option.isSome_eq_false_iff, ← Bool.not_eq_true]
    exact fun hsome => hmeta ⟨rfl, hsome⟩
  · have hquestion : ∀ c ∈ (.char '?' :: v : Text).head?, isSmall c = false := by
      rintro c ⟨⟩
      decide
    rw [metadataMark?_append_of_endsSmall hz hword hv, metadataMark?_append_of_endsSmall hz hword hquestion, hmark]
    exact ⟨rfl, rfl⟩

/-- Where no metadata begin it does not matter what is in front. -/
theorem clauseFrom_before {quote : Option CodePoint} {depth : Nat} {t : Text} (h : metadataMark? t = none)
    (before before' : CodePoint) : clauseFrom quote depth before t = clauseFrom quote depth before' t := by
  rcases t with _ | ⟨c, rest⟩
  · rw [clauseFrom, clauseFrom]
  by_cases hc : c = '\\'
  · subst hc
    rcases rest with _ | ⟨d, rest⟩
    · rw [clauseFrom, clauseFrom]
    · rw [clauseFrom_escaped, clauseFrom_escaped]
  · rw [clauseFrom_cons hc, clauseFrom_cons hc, h]
    simp

/-- What a clause ends at: the bracket of its marker or its metadata. -/
def EndsClause (rest after : Text) : Prop :=
  rest = after ∧ ((∃ behind, after = .char '\x7d' :: behind) ∨ (metadataMark? after).isSome = true)

/-- A clause ends in front of the question mark or has it, or else it ends at what would no
    longer begin metadata. -/
def Questioned (z v : Text) (o o' : Option (Text × Text)) : Prop :=
  Agree EndsClause z v o o' ∨
    ∃ clause, z = clause ++ "meta".text ∧ (metadataMark? ("meta".text ++ v)).isSome = true ∧
      o = some (clause, "meta".text ++ v)

theorem Questioned.behind {z v : Text} {o o' : Option (Text × Text)} (s : Text) (h : Questioned z v o o') :
    Questioned (s ++ z) v (inFront s o) (inFront s o') := by
  rcases h with h | ⟨clause, rfl, hmark, rfl⟩
  · exact Or.inl (h.inFront s)
  · exact Or.inr ⟨s ++ clause, (List.append_assoc _ _ _).symm, hmark, rfl⟩

/-- A question mark means nothing in a clause. -/
theorem clauseFrom_mark_question {v : Text} (hv : metadataMark? v = none) {quote : Option CodePoint}
    (hquote : ∀ q ∈ quote, Reader.isQuote q = true) (depth : Nat) (before : CodePoint) :
    clauseFrom quote depth before (.char '?' :: v) = inFront [.char '?'] (clauseFrom quote depth before v) := by
  have hplain : Reader.isQuote (.char '?') = false := by decide
  rw [clauseFrom_before hv before '?', clauseFrom_cons (by decide)]
  cases quote with
  | none => simp [hplain, metadataMark?_eq_none]
  | some q =>
    have hne : CodePoint.char '?' ≠ q := (Reader.ne_of_class (hquote q rfl) hplain).symm
    simp only [if_neg hne]

/-- A reader that goes on in both texts. -/
theorem Questioned.of_step {z v : Text} {c : CodePoint} {o o' next next' : Option (Text × Text)} (ho : o = inFront [c] next)
    (ho' : o' = inFront [c] next') (h : Questioned z v next next') : Questioned (c :: z) v o o' := by
  rw [ho, ho']
  exact h.behind [c]

/-- A reader that ends where it stands, in both texts. -/
theorem Questioned.of_end {z v : Text} {o o' : Option (Text × Text)} (hends : EndsClause z z) (ho : o = some ([], z ++ v))
    (ho' : o' = some ([], z ++ .char '?' :: v)) : Questioned z v o o' := by
  rw [ho, ho']
  exact Or.inl (.ended rfl hends)

/-- The reader at a character that might be the first of the word that metadata begin with. -/
theorem clauseFrom_question_at_mark {z v : Text} {c : CodePoint} {depth : Nat} {before : CodePoint} (hz : EndsSmall (c :: z))
    (hv : ∀ d ∈ v.head?, isSmall d = false) (hmark : metadataMark? (c :: z) = none)
    (hat : depth = 0 ∧ Reader.isNameChar before = false)
    (hgo : ∀ u, metadataMark? (c :: u) = none → clauseFrom none depth before (c :: u) = inFront [c] (clauseFrom none depth c u))
    (h : Questioned z v (clauseFrom none depth c (z ++ v)) (clauseFrom none depth c (z ++ .char '?' :: v))) :
    Questioned (c :: z) v (clauseFrom none depth before (c :: z ++ v))
      (clauseFrom none depth before (c :: z ++ .char '?' :: v)) := by
  by_cases hmeta : c :: z = "meta".text ∧ (metadataMark? ("meta".text ++ v)).isSome = true
  · -- the word is followed by a colon, and the clause ends in front of it
    obtain ⟨hword, hsome⟩ := hmeta
    refine Or.inr ⟨[], hword, hsome, ?_⟩
    obtain ⟨inside, hinside⟩ := Option.isSome_iff_exists.mp hsome
    rw [hword, hat.1]
    exact clauseFrom_mark hat.2 hinside
  · obtain ⟨hplain, hquestion⟩ := metadataMark?_question_of_none hz hv hmark hmeta
    exact .of_step (hgo _ hplain) (hgo _ hquestion) h

theorem clauseFrom_question {z v : Text} (hz : EndsSmall z) (hv : ∀ c ∈ v.head?, isSmall c = false)
    {quote : Option CodePoint} (hquote : ∀ q ∈ quote, Reader.isQuote q = true) (depth : Nat) (before : CodePoint) :
    Questioned z v (clauseFrom quote depth before (z ++ v)) (clauseFrom quote depth before (z ++ .char '?' :: v)) := by
  have hv' : metadataMark? v = none := by
    rcases v with _ | ⟨c, w⟩
    · rfl
    · apply metadataMark?_eq_none
      rintro rfl
      cases hv _ rfl
  have hnone : ∀ q ∈ (none : Option CodePoint), Reader.isQuote q = true := fun q hq => by cases hq
  fun_induction clauseFrom quote depth before z with
  | case1 quote depth before => exact Or.inl (agree_nil (clauseFrom_mark_question hv' hquote depth before))
  | case2 => exact absurd (hz _ rfl) (by decide)
  | case3 quote depth before c rest ih =>
    have hrest := (ih hz.tail.tail hquote).behind [.char '\\', c]
    rwa [← clauseFrom_escaped quote depth before, ← clauseFrom_escaped quote depth before] at hrest
  | case4 depth before c rest hend hescape q ih =>
    have hslash := ne_backslash hend hescape
    refine .of_step (clauseFrom_inQuotes hslash _) (clauseFrom_inQuotes hslash _) (ih hz.tail ?_)
    intro q' hq'
    split at hq'
    · cases hq'
    · exact hquote q' hq'
  | case5 depth before c rest hend hescape hc ih =>
    rw [Bool.and_eq_true, decide_eq_true_eq] at hc
    obtain ⟨rfl, hc⟩ := hc
    refine .of_step (clauseFrom_quote hc _) (clauseFrom_quote hc _) (ih hz.tail ?_)
    rintro q ⟨⟩
    exact hc
  | case6 depth before rest _ _ _ ih =>
    exact .of_step (clauseFrom_open depth before _) (clauseFrom_open depth before _) (ih hz.tail hnone)
  | case7 before rest => exact .of_end ⟨rfl, Or.inl ⟨rest, rfl⟩⟩ (clauseFrom_end _) (clauseFrom_end _)
  | case8 depth before rest hdepth _ _ _ _ ih =>
    obtain ⟨depth, rfl⟩ := Nat.exists_eq_succ_of_ne_zero hdepth
    exact .of_step (clauseFrom_close depth before _) (clauseFrom_close depth before _) (ih hz.tail hnone)
  | case9 depth before c rest hend hescape hplain hopen hclose hmark =>
    -- the mark is in `z`, so the clause ends there whatever follows
    rw [Bool.and_eq_true] at hmark
    obtain ⟨inside, hinside⟩ := Option.isSome_iff_exists.mp hmark.2
    have hstop (u : Text) : clauseFrom none depth before (c :: (rest ++ u)) = some ([], c :: (rest ++ u)) := by
      have hsome := metadataMark?_append_of_some hinside u
      rw [List.cons_append] at hsome
      rw [clauseFrom_cons (ne_backslash hend hescape)]
      simp only [if_neg hplain, if_neg hopen, if_neg hclose, hsome, hmark.1, Option.isSome_some, Bool.and_true, if_true]
    exact .of_end ⟨rfl, Or.inr hmark.2⟩ (hstop v) (hstop _)
  | case10 depth before c rest hend hescape hplain hopen hclose hmark ih =>
    have hgo {u : Text} (hu : (decide (depth = 0) && !Reader.isNameChar before && (metadataMark? (c :: u)).isSome) = false) :
        clauseFrom none depth before (c :: u) = inFront [c] (clauseFrom none depth c u) := by
      rw [clauseFrom_cons (ne_backslash hend hescape)]
      simp only [if_neg hplain, if_neg hopen, if_neg hclose, hu, Bool.false_eq_true, if_false]
    have hrest := ih hz.tail hnone
    by_cases hat : (decide (depth = 0) && !Reader.isNameChar before) = true
    · rw [hat, Bool.true_and, Bool.not_eq_true, Option.isSome_eq_false_iff, Option.isNone_iff_eq_none] at hmark
      rw [Bool.and_eq_true, decide_eq_true_eq, Bool.not_eq_true'] at hat
      refine clauseFrom_question_at_mark hz hv hmark hat (fun u hu => hgo ?_) hrest
      rw [hu, Option.isSome_none, Bool.and_false]
    · rw [Bool.not_eq_true] at hat
      exact .of_step (hgo (by rw [hat]; rfl)) (hgo (by rw [hat]; rfl)) hrest

/-! ## Markers in front -/

/-- What comes of a reading when a question mark is put in behind `z`. What ended in `z` ends
    there again, and what failed fails again; of what reached further nothing is said. -/
inductive Undisturbed {α : Type} (z v : Text) : Option (α × Text) → Option (α × Text) → Prop
  | ended {a : α} {front rest : Text} : z = front ++ rest →
      Undisturbed z v (some (a, rest ++ v)) (some (a, rest ++ .char '?' :: v))
  | refused : Undisturbed z v none none
  | reaching {a : α} {after : Text} {o' : Option (α × Text)} : after.length < v.length → Undisturbed z v (some (a, after)) o'

namespace Undisturbed
variable {α β : Type} {z v : Text} {o o' : Option (α × Text)}

theorem map (f : α → β) (h : Undisturbed z v o o') :
    Undisturbed z v (o.map fun (a, after) => (f a, after)) (o'.map fun (a, after) => (f a, after)) := by
  cases h with
  | ended hz => exact .ended hz
  | refused => exact .refused
  | reaching hlt => exact .reaching hlt

theorem of_append {a : α} {rest : Text} (h : Undisturbed z v (some (a, rest ++ v)) o') :
    o' = some (a, rest ++ .char '?' :: v) := by
  generalize ho : some (a, rest ++ v) = o at h
  cases h with
  | ended hz =>
    rw [Option.some.injEq, Prod.mk.injEq] at ho
    obtain ⟨rfl, hrest⟩ := ho
    rw [List.append_cancel_right hrest]
  | refused => cases ho
  | reaching hlt =>
    cases ho
    rw [List.length_append] at hlt
    omega

theorem of_suffix {y : Text} (h : Undisturbed z v o o') (hz : z <:+ y) : Undisturbed y v o o' := by
  obtain ⟨front, rfl⟩ := hz
  cases h with
  | ended hz => exact .ended (by rw [hz, ← List.append_assoc])
  | refused => exact .refused
  | reaching hlt => exact .reaching hlt

/-- A reading that goes on in what follows the question mark. -/
theorem of_map {f g : α → β} (h : ∀ r ∈ o, r.2.length < v.length) :
    Undisturbed z v (o.map fun (a, after) => (f a, after)) (o.map fun (a, after) => (g a, after)) := by
  rcases o with _ | ⟨a, after⟩
  · exact .refused
  · exact .reaching (h _ rfl)

end Undisturbed

theorem closing?_undisturbed {z : Text} (hz : EndsSmall z) (v : Text) :
    Undisturbed z v (Bracket.closing? .curly (z ++ v)) (Bracket.closing? .curly (z ++ .char '?' :: v)) := by
  have hslash : ∀ c ∈ z.getLast?, c ≠ '\\' := fun c hc => Reader.ne_of_class (hz c hc) (by decide)
  have hagree := closingFrom_question hslash v 0
  rw [Bracket.closing?, Bracket.closing?]
  generalize hrun : Bracket.closingFrom .curly 0 (z ++ v) = o at hagree ⊢
  generalize Bracket.closingFrom .curly 0 (z ++ .char '?' :: v) = o' at hagree ⊢
  cases hagree with
  | @ended inside rest after hinside hends =>
    refine @Undisturbed.ended _ _ v inside (inside ++ [.char '\x7d']) after ?_
    rw [hinside, hends, List.append_assoc]
    rfl
  | passed o =>
    rcases o with _ | ⟨inside, after⟩
    · exact .refused
    · apply Undisturbed.reaching
      have htext := Bracket.closingFrom_eq hrun
      rw [List.append_assoc] at htext
      rw [List.append_cancel_left htext, List.length_append, List.length_cons]
      omega

namespace MarkerBody

/-- The metadata, if there are any, up to the bracket that ends the marker. -/
def readRest? (t : Text) : Option (Option Text × Text) :=
  match metadataMark? t with
  | some inside => (Bracket.closing? .curly inside).map fun (metadata, after) => (some metadata, after)
  | none => (Bracket.closing? .curly t).map fun (_, after) => (none, after)

theorem read?_eq (t : Text) : read? t = (readClause? (dropSpaces t)).bind fun (clause, afterClause) =>
    (readRest? (dropSpaces afterClause)).map fun (metadata, after) => (⟨clause, metadata⟩, after) := by
  rw [read?]
  rcases readClause? (dropSpaces t) with _ | ⟨clause, afterClause⟩
  · rfl
  · rw [Option.bind_some]
    dsimp only
    rw [readRest?]
    cases metadataMark? (dropSpaces afterClause) with
    | some inside =>
      rw [Option.map_map]
      rfl
    | none =>
      rw [Option.map_map]
      rfl

theorem read?_eq_some_iff {t after : Text} {body : MarkerBody} : read? t = some (body, after) ↔
    ∃ afterClause, readClause? (dropSpaces t) = some (body.clause, afterClause) ∧
      readRest? (dropSpaces afterClause) = some (body.metadata, after) := by
  rw [read?_eq, Option.bind_eq_some_iff]
  constructor
  · rintro ⟨⟨clause, afterClause⟩, hclause, h⟩
    obtain ⟨⟨metadata, after'⟩, hrest, he⟩ := Option.map_eq_some_iff.mp h
    cases he
    exact ⟨afterClause, hclause, hrest⟩
  · rintro ⟨afterClause, hclause, hrest⟩
    exact ⟨_, hclause, Option.map_eq_some_iff.mpr ⟨_, hrest, rfl⟩⟩

theorem readRest?_length {t after : Text} {metadata : Option Text} (h : readRest? t = some (metadata, after)) :
    after.length < t.length := by
  have hclosing {u inside : Text} (hu : Bracket.closing? .curly u = some (inside, after)) : after.length < u.length := by
    rw [Bracket.closing?_eq hu, List.length_append, List.length_cons]
    omega
  unfold readRest? at h
  split at h
  · rename_i inside hmark
    obtain ⟨⟨md, after'⟩, hc, he⟩ := Option.map_eq_some_iff.mp h
    cases he
    exact Nat.lt_of_lt_of_le (hclosing hc) (Marker.metadataMark?_suffix hmark).length_le
  · obtain ⟨⟨passed, after'⟩, hc, he⟩ := Option.map_eq_some_iff.mp h
    cases he
    exact hclosing hc

/-- Whether metadata begin in a text can be seen in it alone. -/
def Settled (a : Text) : Prop := ∀ u, metadataMark? (a ++ u) = (metadataMark? a).map (· ++ u)

theorem readRest?_undisturbed {a : Text} (ha : EndsSmall a) (hsettled : Settled a) (v : Text) :
    Undisturbed a v (readRest? (a ++ v)) (readRest? (a ++ .char '?' :: v)) := by
  unfold readRest?
  rw [hsettled v, hsettled (.char '?' :: v)]
  rcases hmark : metadataMark? a with _ | inside
  · exact (closing?_undisturbed ha v).map fun _ => none
  · obtain ⟨front, rfl⟩ := Marker.metadataMark?_suffix hmark
    exact ((closing?_undisturbed ha.of_append v).of_suffix (List.suffix_append _ _)).map some

theorem settled_of_name {n : Marker} {z v : Text} (h : NameEnd n z v) : Settled z := by
  obtain ⟨front, s, rfl, -⟩ := h.cut
  intro u
  rw [List.append_assoc, List.cons_append, metadataMark?_append (atBracket_open _), metadataMark?_append (atBracket_open _),
    Option.map_map]
  simp [Function.comp_def]

/-- Where a clause ends it can be seen whether metadata follow. -/
theorem settled_of_endsClause {rest after : Text} (h : EndsClause rest after) :
    Settled after ∧ ∀ u, dropSpaces (after ++ u) = after ++ u := by
  obtain ⟨-, ⟨behind, rfl⟩ | hmark⟩ := h
  · exact ⟨fun u => rfl, fun u => rfl⟩
  · obtain ⟨inside, hinside⟩ := Option.isSome_iff_exists.mp hmark
    refine ⟨fun u => ?_, dropSpaces_append_of_mark hinside⟩
    rw [metadataMark?_append_of_some hinside, hinside]
    rfl

/-- What stands in front of a bracket is a clause or none, whatever is behind. -/
theorem readClause?_append (front t : Text) : readClause? (dropSpaces (front ++ .char '\x7b' :: t)) =
    match Reader.keyword? "where".text (dropSpaces front) with
    | none => some (none, dropSpaces front ++ .char '\x7b' :: t)
    | some r => (clauseFrom none 0 'e' (r ++ .char '\x7b' :: t)).map fun (clause, after) => (some (Text.trim clause), after) := by
  rw [Reader.dropSpaces_append (atBracket_open t), readClause?, Reader.keyword?_append (atBracket_open t) (by decide)]
  cases Reader.keyword? "where".text (dropSpaces front) with
  | none => rfl
  | some r => rfl

/-- What follows a clause that ends in front of the question mark. -/
theorem readRest?_behind_clause {z v inside rest after : Text} (hz : EndsSmall z) (hinside : z = inside ++ rest)
    (h : EndsClause rest after) :
    Undisturbed z v (readRest? (dropSpaces (after ++ v))) (readRest? (dropSpaces (after ++ .char '?' :: v))) := by
  obtain ⟨hsettled, hdropped⟩ := settled_of_endsClause h
  have hafter : z = inside ++ after := by rw [hinside, h.1]
  rw [hdropped, hdropped, hafter]
  rw [hafter] at hz
  exact (readRest?_undisturbed hz.of_append hsettled v).of_suffix (List.suffix_append _ _)

/-- A marker with the question mark in its clause ends behind it. -/
theorem readRest?_reaching {v passed after : Text} (htext : v = passed ++ after) :
    ∀ found ∈ readRest? (dropSpaces after), found.2.length < v.length := by
  intro found hfound
  have hlength : found.2.length < (dropSpaces after).length := readRest?_length hfound
  have hdropped := Reader.length_dropWhile_le isSpace after
  rw [dropSpaces] at hlength
  rw [htext, List.length_append]
  omega

/-- So does one with the question mark in what would have been its metadata. -/
theorem readRest?_of_mark {n : Marker} {z v : Text} (h : NameEnd n z v) (hmark : (metadataMark? ("meta".text ++ v)).isSome = true) :
    ∃ metadata after, readRest? (dropSpaces ("meta".text ++ v)) = some (some metadata, after) ∧ after.length < v.length := by
  obtain ⟨inside, hinside⟩ := Option.isSome_iff_exists.mp hmark
  obtain ⟨metadata, after, hclosing, hlength⟩ := h.closed_of_mark hinside
  refine ⟨metadata, after, ?_, hlength⟩
  have hword : dropSpaces ("meta".text ++ v) = "meta".text ++ v := rfl
  rw [hword, readRest?, hinside]
  dsimp only
  rw [hclosing]
  rfl

/-- A clause and what follows it. -/
def withRest (clause : Text × Text) : Option (MarkerBody × Text) :=
  (readRest? (dropSpaces clause.2)).map fun (metadata, after) => (⟨some (Text.trim clause.1), metadata⟩, after)

theorem withRest_undisturbed {n : Marker} {z v : Text} (h : NameEnd n z v) {o o' : Option (Text × Text)} (hquestion : Questioned z v o o')
    (htext : ∀ clause after, o = some (clause, after) → z ++ v = clause ++ after) :
    Undisturbed z v (o.bind withRest) (o'.bind withRest) := by
  rcases hquestion with hagree | ⟨clause, -, hmark, rfl⟩
  · cases hagree with
    | ended hinside hends => exact (readRest?_behind_clause h.endsSmall hinside hends).map _
    | passed o =>
      rcases o with _ | ⟨passed, after⟩
      · exact .refused
      · have hwhole := htext _ _ rfl
        rw [List.append_assoc] at hwhole
        exact .of_map (readRest?_reaching (List.append_cancel_left hwhole))
  · obtain ⟨metadata, after, hrest, hlength⟩ := readRest?_of_mark h hmark
    rw [Option.bind_some, withRest, hrest]
    exact .reaching hlength

theorem read?_undisturbed {n : Marker} {y v : Text} (h : NameEnd n y v) :
    Undisturbed y v (read? (y ++ v)) (read? (y ++ .char '?' :: v)) := by
  obtain ⟨front, s, rfl, hcut⟩ := h.cut
  rw [List.append_assoc, List.append_assoc, List.cons_append, List.cons_append, read?_eq, read?_eq, readClause?_append,
    readClause?_append]
  have hdrop {t : Text} : dropSpaces t <:+ t := List.dropWhile_suffix _
  have hbehind {x : Text} (hx : x <:+ front) : x ++ .char '\x7b' :: s <:+ front ++ .char '\x7b' :: s := by
    obtain ⟨before, rfl⟩ := hx
    exact ⟨before, (List.append_assoc _ _ _).symm⟩
  rcases hword : Reader.keyword? "where".text (dropSpaces front) with _ | r
  · -- no clause, and whatever stands there is passed over or has metadata in it
    have hname := hcut (dropSpaces (dropSpaces front))
    have hrest := (readRest?_undisturbed hname.endsSmall (settled_of_name hname) v).of_suffix (hbehind (hdrop.trans hdrop))
    rw [List.append_assoc, List.append_assoc] at hrest
    dsimp only [Option.bind_some]
    rw [Reader.dropSpaces_append (atBracket_open _), Reader.dropSpaces_append (atBracket_open _)]
    exact hrest.map _
  · have hname := hcut r
    have hr : r <:+ front := by
      have hfront := hdrop (t := front)
      rw [(Reader.keyword?_eq_some_iff.mp hword).1] at hfront
      exact (List.suffix_append _ _).trans hfront
    have hquestion := @clauseFrom_question _ v hname.endsSmall h.head_not_small none (fun q hq => nomatch hq) 0 'e'
    have hrest := (withRest_undisturbed hname hquestion fun _ _ => clauseFrom_eq).of_suffix (hbehind hr)
    rw [List.append_assoc, List.append_assoc, List.cons_append, List.cons_append] at hrest
    dsimp only
    rw [Option.bind_map, Option.bind_map]
    exact hrest

end MarkerBody

namespace Marker

/-- There is no marker for want of a head or of a body. -/
theorem read_eq_none_iff {t : Text} : read t = .ok none ↔ MarkerHead.read t = .ok none ∨
    ∃ head afterHead, MarkerHead.read t = .ok (some (head, afterHead)) ∧ MarkerBody.read? afterHead = none := by
  rw [read]
  rcases MarkerHead.read t with f | _ | ⟨head, afterHead⟩
  · simp
  · simp
  rcases hb : MarkerBody.read? afterHead with _ | ⟨body, after⟩
  · simp [hb]
  · have hsome : ∀ head' afterHead', (Except.ok (some (head, afterHead)) : Except MarkerFault _) =
        .ok (some (head', afterHead')) → MarkerBody.read? afterHead' ≠ none := by
      rintro _ _ ⟨⟩
      simp [hb]
    simp only [hb]
    constructor
    · intro h
      split at h
      · split at h
        · cases h
        · cases h
      · cases h
    · rintro (h | ⟨head', afterHead', hh, hnone⟩)
      · cases h
      · exact absurd hnone (hsome _ _ hh)

variable {n : Marker} {y v : Text}

/-- A bracket that begins no marker begins none with the question mark behind it either. -/
theorem read_none_question (h : NameEnd n y v) (hread : read (y ++ v) = .ok none) :
    read (y ++ .char '?' :: v) = .ok none := by
  obtain ⟨front, s, rfl, hcut⟩ := h.cut
  rw [List.append_assoc, List.cons_append] at hread ⊢
  rw [read_eq_none_iff] at hread ⊢
  rcases hread with hhead | ⟨head, afterHead, hhead, hbody⟩
  · exact Or.inl (MarkerHead.read_local_none (atBracket_open _) (atBracket_open _) hhead)
  · obtain ⟨a, rfl, hhead'⟩ := MarkerHead.read_local (atBracket_open _)
      (atBracket_open (s ++ .char '?' :: v)) hhead
    refine Or.inr ⟨head, _, hhead', ?_⟩
    have hkept := MarkerBody.read?_undisturbed (hcut a)
    rw [List.append_assoc, List.append_assoc, List.cons_append, List.cons_append, hbody] at hkept
    generalize MarkerBody.read? _ = o' at hkept ⊢
    cases hkept
    rfl

/-- The text of a marker is all that is in front of what was not read. -/
theorem text_of_rest {y w rest : Text} {m : Marker} (hread : read (y ++ w) = .ok (some (m, rest ++ w))) :
    .char '\x7b' :: y = m.text ++ rest := by
  have htext := (text_of_read hread).2
  rw [← List.cons_append, ← List.append_assoc] at htext
  exact List.append_cancel_right htext

/-- A marker that ends in front of the name is read as before. -/
theorem read_behind_question {rest : Text} {m : Marker} (h : NameEnd n y v)
    (hread : read (y ++ v) = .ok (some (m, rest ++ v))) :
    read (y ++ .char '?' :: v) = .ok (some (m, rest ++ .char '?' :: v)) := by
  obtain ⟨head, afterHead, body, hhead, hbody, hnumber, hm⟩ := read_eq_ok_iff.mp hread
  have hread' : ∃ text, read (y ++ .char '?' :: v) = .ok (some (⟨head, body, text⟩, rest ++ .char '?' :: v)) := by
    obtain ⟨front, s, rfl, hcut⟩ := h.cut
    rw [List.append_assoc, List.cons_append] at hhead ⊢
    obtain ⟨a, rfl, hhead'⟩ := MarkerHead.read_local (atBracket_open _) (atBracket_open (s ++ .char '?' :: v)) hhead
    have hkept := MarkerBody.read?_undisturbed (hcut a)
    rw [List.append_assoc, List.append_assoc, List.cons_append, List.cons_append, hbody] at hkept
    exact ⟨_, read_eq_ok_iff.mpr ⟨head, _, body, hhead', hkept.of_append, hnumber, rfl⟩⟩
  obtain ⟨text, hread'⟩ := hread'
  have htext : m.text = text := List.append_cancel_right ((text_of_rest hread).symm.trans (text_of_rest hread'))
  rw [hread', ← htext, hm]

end Marker

end Errand
