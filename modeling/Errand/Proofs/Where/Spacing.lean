/-
  Errand.Proofs.Where.Spacing — tokens and the spaces around them.

  The tokens of a clause lie side by side in it, with spaces or nothing before, between and
  behind them, and a row of tokens is that of the clause if and only if it lies in it so
  (`Tiled`, `tokens_eq_ok_iff`). What was taken for a token is read as that token by itself,
  hence also in front of a space. So the parts of a clause can be moved apart, or further
  apart, and the tokens stay what they were (`Tiled.of_spread`).

  A clause is read in rounds, a token in each with the spaces behind it. As a token takes a
  character at least, there are no more rounds than characters, and one to notice the end
  (`Stage.reading_ends`).
-/

import Errand.Proofs.Where.Locality
import Mathlib.Logic.Function.Iterate

namespace Errand.Where

/-! ## Tokens in a clause -/

/-- Nothing but spaces. -/
def IsSpaces (t : Text) : Prop := ∀ c ∈ t, Reader.isSpace c = true

/-- A text that begins some characters into a clause, with the tokens in it. Each stands
    where its part of the text begins, and that part is what the reader takes there; what
    remains of the text is spaces. -/
inductive Tiled : Nat → Text → List Token → Prop
  | last {place : Nat} {gap : Text} : IsSpaces gap → Tiled place gap []
  | next {place : Nat} {gap rest : Text} {k : Token} {ks : List Token} :
      IsSpaces gap → k.position = place + gap.length → Token.ReadsAs (k.source ++ rest) k.content rest →
      Tiled (k.position + k.source.length) rest ks → Tiled place (gap ++ (k.source ++ rest)) (k :: ks)

variable {clause t : Text} {place : Nat} {found : List Token}

theorem take_own (c : CodePoint) (own after : Text) :
    (c :: (own ++ after)).take ((c :: (own ++ after)).length - after.length) = c :: own := by
  rw [← List.cons_append, List.length_append, Nat.add_sub_cancel, List.take_left]

/-- The first token is written with what was taken of the text, and the others stand behind the
    spaces there. -/
theorem tokensFrom_own (clause : Text) (place : Nat) {c : CodePoint} {own after : Text} {content : TokenContent}
    (h : Token.read c (own ++ after) = .ok (content, after)) :
    tokensFrom clause place (c :: (own ++ after)) =
      (tokensFrom clause (place + (c :: own).length + (after.takeWhile Reader.isSpace).length)
        (Reader.dropSpaces after)).map (⟨content, c :: own, place⟩ :: ·) := by
  have hplace : place + ((c :: (own ++ after)).length - (Reader.dropSpaces after).length) =
      place + (c :: own).length + (after.takeWhile Reader.isSpace).length := by
    have hspaces := congrArg List.length (List.takeWhile_append_dropWhile (p := Reader.isSpace) (l := after))
    rw [List.length_append] at hspaces
    simp only [List.length_cons, List.length_append, Reader.dropSpaces]
    omega
  rw [tokensFrom_source clause place h, take_own, hplace]

theorem tiled_of_tokensFrom
    (h : tokensFrom clause (place + (t.takeWhile Reader.isSpace).length) (Reader.dropSpaces t) = .ok found) :
    Tiled place t found := by
  induction hn : t.length using Nat.strong_induction_on generalizing t place found with
  | _ n ih =>
    have hgap : IsSpaces (t.takeWhile Reader.isSpace) := fun c hc => List.mem_takeWhile_imp hc
    have ht : t.takeWhile Reader.isSpace ++ Reader.dropSpaces t = t := List.takeWhile_append_dropWhile
    have hhead : ∀ c ∈ (Reader.dropSpaces t).head?, Reader.isSpace c = false := Text.head_dropWhile Reader.isSpace t
    have hlength : (Reader.dropSpaces t).length ≤ n := hn ▸ Reader.length_dropWhile_le Reader.isSpace t
    generalize t.takeWhile Reader.isSpace = gap at h hgap ht
    rcases hrest : Reader.dropSpaces t with _ | ⟨c, rest⟩
    · rw [hrest, tokensFrom.eq_1] at h
      cases h
      rw [hrest, List.append_nil] at ht
      rw [← ht]
      exact .last hgap
    · rw [hrest] at h ht hhead hlength
      obtain ⟨content, after, -, -, hread, -, -⟩ := tokensFrom_cons h
      have hshorter := Token.read_length hread
      obtain ⟨own, rfl, -⟩ := Token.read_alone hread
      rw [tokensFrom_own clause _ hread] at h
      obtain ⟨found', hbehind, rfl⟩ := exists_of_map_eq_ok h
      have htiled := ih after.length (Nat.lt_of_lt_of_le hshorter hlength) hbehind rfl
      rw [← ht]
      exact @Tiled.next place gap after ⟨content, c :: own, place + gap.length⟩ found' hgap rfl
        ⟨c, own ++ after, rfl, hhead c rfl, hread⟩ htiled

theorem Tiled.tokensFrom (h : Tiled place t found) (clause : Text) :
    tokensFrom clause (place + (t.takeWhile Reader.isSpace).length) (Reader.dropSpaces t) = .ok found := by
  induction h with
  | @last place gap hgap =>
    rw [Reader.dropSpaces, List.dropWhile_eq_nil_iff.mpr hgap]
    exact tokensFrom.eq_1 _ _
  | @next place gap rest k ks hgap hplace hreads _ ih =>
    obtain ⟨content, source, position⟩ := k
    obtain ⟨c, more, htext, hspace, hread⟩ := hreads
    dsimp only at hplace htext hread ih ⊢
    obtain ⟨own, rfl, rfl⟩ := Token.own_cons htext.symm (Token.read_length hread)
    have hhead : ∀ d ∈ (c :: own ++ rest).head?, Reader.isSpace d = false := by
      intro d hd
      cases hd
      exact hspace
    rw [Text.takeWhile_run hgap hhead, Reader.dropSpaces, Text.dropWhile_run hgap hhead, ← hplace, List.cons_append,
      tokensFrom_own clause position hread, ih]
    rfl

/-- The tokens of a clause are those that lie in it. -/
theorem tokens_eq_ok_iff : tokens clause = .ok found ↔ Tiled 0 clause found := by
  rw [tokens, ← Nat.zero_add (clause.takeWhile Reader.isSpace).length]
  exact ⟨tiled_of_tokensFrom, fun h => h.tokensFrom clause⟩

/-! ## Tokens moved apart -/

/-- A text with slices in it one after another, which may have spaces in front, and behind each of
    which there is a space or the end. -/
inductive Spread : Text → List Text → Prop
  | last {gap : Text} : IsSpaces gap → Spread gap []
  | next {gap slice rest : Text} {slices : List Text} :
      IsSpaces gap → (∀ c ∈ rest.head?, Reader.isSpace c = true) → Spread rest slices →
      Spread (gap ++ (slice ++ rest)) (slice :: slices)

theorem isSpaces_nil : IsSpaces [] := fun _ hc => by cases hc

/-- More spaces in front make no difference. -/
theorem Spread.after_spaces {gap : Text} (hgap : IsSpaces gap) {slices : List Text} (h : Spread t slices) :
    Spread (gap ++ t) slices := by
  have happend : ∀ {gap' : Text}, IsSpaces gap' → IsSpaces (gap ++ gap') := fun hgap' c hc =>
    (List.mem_append.mp hc).elim (hgap c) (hgap' c)
  cases h with
  | last hgap' => exact .last (happend hgap')
  | next hgap' hend hrest =>
    rw [← List.append_assoc]
    exact .next (happend hgap') hend hrest

/-- Slices are spread over the text that joins them with spaces. -/
theorem spread_join {separator : Text} (hne : separator ≠ []) (hspaces : IsSpaces separator) (slices : List Text) :
    Spread (Text.join separator slices) slices := by
  induction slices with
  | nil => exact .last isSpaces_nil
  | cons slice slices ih =>
    rcases slices with _ | ⟨slice', slices⟩
    · have halone : Spread ([] ++ (slice ++ [])) [slice] := .next isSpaces_nil (by simp) (.last isSpaces_nil)
      rw [List.nil_append, List.append_nil] at halone
      rw [Text.join_singleton]
      exact halone
    · obtain ⟨c, separator, rfl⟩ := List.exists_cons_of_ne_nil hne
      rw [Text.join_cons_cons, List.append_assoc]
      refine .next isSpaces_nil ?_ (ih.after_spaces hspaces)
      intro d hd
      cases hd
      exact hspaces c List.mem_cons_self

theorem Token.ReadsAs.append {k : TokenContent} {u : Text} (h : ReadsAs t k []) (hu : AtBreak u) :
    ReadsAs (t ++ u) k u := by
  obtain ⟨c, more, rfl, hspace, hread⟩ := h
  exact ⟨c, more ++ u, rfl, hspace, Token.read_append hu hread⟩

/-- Each token is read from its part of the text alone. -/
theorem Tiled.alone (h : Tiled place t found) : ∀ k ∈ found, Token.ReadsAs k.source k.content [] := by
  induction h with
  | last =>
    intro k hk
    cases hk
  | @next place gap rest k ks _ _ hreads _ ih =>
    refine List.forall_mem_cons.mpr ⟨?_, ih⟩
    obtain ⟨c, more, htext, hspace, hread⟩ := hreads
    obtain ⟨own, rfl, hown⟩ := Token.read_alone hread
    rw [← List.cons_append] at htext
    exact ⟨c, own, List.append_cancel_right htext, hspace, hown⟩

/-- Tokens that are read each by itself are read from any text that their parts are spread over. -/
theorem Tiled.of_spread (halone : ∀ k ∈ found, Token.ReadsAs k.source k.content [])
    (h : Spread t (found.map Token.source)) (place : Nat) : ∃ found', Tiled place t found' ∧
      found'.map Token.content = found.map Token.content ∧ found'.map Token.source = found.map Token.source := by
  induction found generalizing t place with
  | nil =>
    cases h with
    | last hgap => exact ⟨[], .last hgap, rfl, rfl⟩
  | cons k found ih =>
    obtain ⟨hk, halone⟩ := List.forall_mem_cons.mp halone
    cases h with
    | @next gap _ rest _ hgap hend hrest =>
      obtain ⟨found', htiled, hcontents, hsources⟩ := ih halone hrest (place + gap.length + k.source.length)
      have hbreak : AtBreak rest := fun c hc => mem_breaks_of_isSpace (hend c hc)
      refine ⟨⟨k.content, k.source, place + gap.length⟩ :: found',
        @Tiled.next place gap rest ⟨k.content, k.source, place + gap.length⟩ found' hgap rfl (hk.append hbreak) htiled,
        ?_, ?_⟩
      · rw [List.map_cons, List.map_cons, hcontents]
      · rw [List.map_cons, List.map_cons, hsources]

/-! ## The rounds of reading -/

/-- How far the reading of a clause has come: the place, what is left from there on, and the tokens in
    front of it; or what it came to. -/
inductive Stage where
  | reading (place : Nat) (left : Text) (found : List Token)
  | ended (outcome : Except Fault (List Token))

namespace Stage

def start (clause : Text) : Stage :=
  .reading (clause.takeWhile Reader.isSpace).length (Reader.dropSpaces clause) []

/-- A round takes a token and the spaces behind it. -/
def step (clause : Text) : Stage → Stage
  | .reading _ [] found => .ended (.ok found)
  | .reading place (c :: rest) found =>
    match Token.read c rest with
    | .error reason => .ended (.error ⟨reason, clause, place⟩)
    | .ok (content, after) =>
      let source := (c :: rest).take ((c :: rest).length - after.length)
      let gap := (after.takeWhile Reader.isSpace).length
      .reading (place + source.length + gap) (Reader.dropSpaces after) (found ++ [⟨content, source, place⟩])
  | .ended outcome => .ended outcome

theorem step_fault {c : CodePoint} {rest : Text} {reason : Reason} (h : Token.read c rest = .error reason) :
    step clause (.reading place (c :: rest) found) = .ended (.error ⟨reason, clause, place⟩) := by
  rw [step, h]

theorem step_token {c : CodePoint} {own after : Text} {content : TokenContent}
    (h : Token.read c (own ++ after) = .ok (content, after)) :
    step clause (.reading place (c :: (own ++ after)) found) =
      .reading (place + (c :: own).length + (after.takeWhile Reader.isSpace).length) (Reader.dropSpaces after)
        (found ++ [⟨content, c :: own, place⟩]) := by
  rw [step, h]
  dsimp only
  rw [take_own]

/-- Every round but the last leaves less, so that the reading ends, and with the tokens there are. -/
theorem reading_ends (clause left : Text) (place : Nat) (found : List Token) : ∃ rounds ≤ left.length + 1,
    (step clause)^[rounds] (.reading place left found) = .ended ((tokensFrom clause place left).map (found ++ ·)) := by
  induction hn : left.length using Nat.strong_induction_on generalizing left place found with
  | _ n ih =>
    rcases left with _ | ⟨c, rest⟩
    · refine ⟨1, by omega, ?_⟩
      rw [tokensFrom.eq_1]
      exact congrArg (fun all => Stage.ended (.ok all)) (List.append_nil found).symm
    · rcases hread : Token.read c rest with reason | ⟨content, after⟩
      · refine ⟨1, by omega, ?_⟩
        rw [tokensFrom_fault clause place hread, Function.iterate_one, step_fault hread]
        rfl
      · have hshorter := Token.behind_length hread
        obtain ⟨own, rfl, -⟩ := Token.read_alone hread
        obtain ⟨rounds, hrounds, hends⟩ := ih _ (hn ▸ hshorter) (Reader.dropSpaces after)
          (place + (c :: own).length + (after.takeWhile Reader.isSpace).length) (found ++ [⟨content, c :: own, place⟩]) rfl
        refine ⟨rounds + 1, by omega, ?_⟩
        rw [Function.iterate_succ_apply, step_token hread, hends, tokensFrom_own clause place hread]
        rcases tokensFrom clause (place + (c :: own).length + (after.takeWhile Reader.isSpace).length)
          (Reader.dropSpaces after) with f | found'
        · rfl
        · exact congrArg (fun all => Stage.ended (.ok all)) (List.append_assoc _ _ _)

end Stage

/-- The tokens of a clause lie in it side by side, nothing but spaces around them, and are read from
    any text in which their parts stand in the same order, moved apart by spaces. The reading of any
    clause at all comes to an end, in at most one round more than it has characters. -/
theorem tokens_spread (clause : Text) :
    (∀ found, tokens clause = .ok found ↔ Tiled 0 clause found) ∧
    (∀ found, tokens clause = .ok found → ∀ t, Spread t (found.map Token.source) →
      ∃ found', tokens t = .ok found' ∧ found'.map Token.content = found.map Token.content ∧
        found'.map Token.source = found.map Token.source) ∧
    ∃ rounds ≤ clause.length + 1, (Stage.step clause)^[rounds] (.start clause) = .ended (tokens clause) := by
  refine ⟨fun found => tokens_eq_ok_iff, ?_, ?_⟩
  · intro found h t hspread
    obtain ⟨found', htiled, hsame⟩ := Tiled.of_spread (tokens_eq_ok_iff.mp h).alone hspread 0
    exact ⟨found', tokens_eq_ok_iff.mpr htiled, hsame⟩
  · obtain ⟨rounds, hrounds, hends⟩ := Stage.reading_ends clause (Reader.dropSpaces clause)
      (clause.takeWhile Reader.isSpace).length []
    have hlength : (Reader.dropSpaces clause).length ≤ clause.length := Reader.length_dropWhile_le _ _
    refine ⟨rounds, by omega, ?_⟩
    rw [Stage.start, hends, ← tokens]
    rcases tokens clause with f | found
    · rfl
    · rfl

/-- Tokens that touch: comparators, a signed number with an exponent in front of a word, an escaped quote. -/
def touching : Text := "a<=-1.5e+3and b=='it\\'s'or not _x9!=.5".text

theorem tokens_spread_touching : ∃ found, tokens touching = .ok found ∧
    found.map (fun k => (k.source, k.position)) =
      [("a".text, 0), ("<=".text, 1), ("-1.5e+3".text, 3), ("and".text, 10), ("b".text, 14), ("==".text, 15),
        ("'it\\'s'".text, 17), ("or".text, 24), ("not".text, 27), ("_x9".text, 31), ("!=".text, 34), (".5".text, 36)] ∧
    Tiled 0 touching found ∧ Spread (Text.join "\t\n".text (found.map Token.source)) (found.map Token.source) ∧
    ∃ found', tokens (Text.join "\t\n".text (found.map Token.source)) = .ok found' ∧
      found'.map Token.content = found.map Token.content ∧ found'.map Token.source = found.map Token.source := by
  have hparts : (tokens touching).toOption.map (·.map fun k => (k.source, k.position)) = some
      [("a".text, 0), ("<=".text, 1), ("-1.5e+3".text, 3), ("and".text, 10), ("b".text, 14), ("==".text, 15),
        ("'it\\'s'".text, 17), ("or".text, 24), ("not".text, 27), ("_x9".text, 31), ("!=".text, 34), (".5".text, 36)] := by
    decide +kernel
  obtain ⟨found, hfound, hparts⟩ := exists_of_toOption hparts
  have hspaces : IsSpaces "\t\n".text := by
    unfold IsSpaces
    decide
  have hspread := spread_join (by decide) hspaces (found.map Token.source)
  obtain ⟨htiled, hmoved, -⟩ := tokens_spread touching
  exact ⟨found, hfound, hparts, (htiled found).mp hfound, hspread, hmoved found hfound _ hspread⟩

end Errand.Where
