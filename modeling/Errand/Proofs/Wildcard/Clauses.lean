/-
  Errand.Proofs.Wildcard.Clauses — where the clause of a marker ends.

  Two readers go through a clause: one that looks for the end of it and knows quotes,
  brackets and the word that begins metadata, and one that cuts it into tokens. They agree
  on where a quoted text ends, and outside of those no token has a bracket in it. So what
  can be read as tokens is passed over, up to a bracket or metadata behind it
  (`parse_passes`).

  Inside of brackets the first reader heeds nothing but brackets (`clauseFrom_balanced`).
-/

import Errand.Proofs.Run
import Errand.Proofs.Text.Balance
import Errand.Proofs.Text.Readers
import Errand.Proofs.Text.Runs
import Errand.Proofs.Where.Chains
import Errand.Where.Clause
import Errand.Wildcard.Markup
import Mathlib.Data.List.TakeWhile

namespace Errand
open Errand.Bracket (inFront inFront_inFront)

/-! ## One character at a time -/

/-- Characters that mean nothing by themselves in a clause. -/
structure IsOrdinary (c : CodePoint) : Prop where
  unescaping : c ≠ '\\'
  unquoting : Reader.isQuote c = false
  unopening : c ≠ '\x7b'
  unclosing : c ≠ '\x7d'

/-- Of a class without the characters that mean something each one is ordinary. -/
theorem isOrdinary_of_class {p : CodePoint → Bool} {c : CodePoint} (hc : p c = true)
    (hp : ∀ d ∈ "\\'\"\x7b\x7d".text, p d = false) : IsOrdinary c where
  unescaping := Reader.ne_of_class hc (hp _ (by decide))
  unquoting := Reader.isQuote_eq_false (Reader.ne_of_class hc (hp _ (by decide))) (Reader.ne_of_class hc (hp _ (by decide)))
  unopening := Reader.ne_of_class hc (hp _ (by decide))
  unclosing := Reader.ne_of_class hc (hp _ (by decide))

theorem consClause_eq (c : CodePoint) (o : Option (Text × Text)) : consClause c o = inFront [c] o := by
  cases o with
  | none => rfl
  | some found => rfl

theorem inFront_nil (o : Option (Text × Text)) : inFront [] o = o := by
  cases o with
  | none => rfl
  | some found => rfl

section
variable {quote : Option CodePoint} {depth : Nat} {before c : CodePoint}

theorem clauseFrom_escaped (quote : Option CodePoint) (depth : Nat) (before c : CodePoint) (rest : Text) :
    clauseFrom quote depth before (.char '\\' :: c :: rest) =
      inFront [.char '\\', c] (clauseFrom quote depth c rest) := by
  rw [clauseFrom, consClause_eq, consClause_eq, inFront_inFront]
  rfl

/-- Behind a character that is no backslash. -/
theorem clauseFrom_cons (hc : c ≠ '\\') (rest : Text) : clauseFrom quote depth before (c :: rest) =
    match quote with
    | some q => inFront [c] (clauseFrom (if c = q then none else some q) depth c rest)
    | none =>
      if depth = 0 && Reader.isQuote c then inFront [c] (clauseFrom (some c) depth c rest)
      else if c = '\x7b' then inFront [c] (clauseFrom none (depth + 1) c rest)
      else if c = '\x7d' then
        if depth = 0 then some ([], c :: rest)
        else inFront [c] (clauseFrom none (depth - 1) c rest)
      else if depth = 0 && !Reader.isNameChar before && (metadataMark? (c :: rest)).isSome then
        some ([], c :: rest)
      else inFront [c] (clauseFrom none depth c rest) := by
  rw [clauseFrom.eq_def]
  split
  · rename_i h
    cases h
  · rename_i h
    cases h
    exact absurd rfl hc
  · rename_i h
    cases h
    exact absurd rfl hc
  · rename_i h
    cases h
    cases quote with
    | none => simp only [consClause_eq]
    | some q => simp only [consClause_eq]

theorem clauseFrom_ordinary (hc : IsOrdinary c) {rest : Text}
    (hmark : Reader.isNameChar before = true ∨ metadataMark? (c :: rest) = none) :
    clauseFrom none 0 before (c :: rest) = inFront [c] (clauseFrom none 0 c rest) := by
  have hnone : (!Reader.isNameChar before && (metadataMark? (c :: rest)).isSome) = false := by
    rcases hmark with hname | hmark
    · simp [hname]
    · simp [hmark]
  rw [clauseFrom_cons hc.unescaping]
  simp [hc.unquoting, hc.unopening, hc.unclosing, hnone]

/-- Inside of quotes nothing means anything but the quote that ends them. -/
theorem clauseFrom_inQuotes {q : CodePoint} (hc : c ≠ '\\') (rest : Text) :
    clauseFrom (some q) depth before (c :: rest) =
      inFront [c] (clauseFrom (if c = q then none else some q) depth c rest) :=
  clauseFrom_cons hc rest

/-- A quote at the outermost level. -/
theorem clauseFrom_quote (hc : Reader.isQuote c = true) (rest : Text) :
    clauseFrom none 0 before (c :: rest) = inFront [c] (clauseFrom (some c) 0 c rest) := by
  have hslash : c ≠ '\\' := by
    rintro rfl
    revert hc
    decide
  rw [clauseFrom_cons hslash]
  simp [hc]

/-- The bracket that closes the marker. -/
theorem clauseFrom_end (rest : Text) : clauseFrom none 0 before (.char '\x7d' :: rest) = some ([], .char '\x7d' :: rest) := by
  have hquote : Reader.isQuote (.char '\x7d') = false := by decide
  rw [clauseFrom_cons (by decide)]
  simp [hquote]

/-- Before an opening bracket it does not matter what is in front. -/
theorem clauseFrom_open (depth : Nat) (before : CodePoint) (rest : Text) :
    clauseFrom none depth before (.char '\x7b' :: rest) =
      inFront [.char '\x7b'] (clauseFrom none (depth + 1) '\x7b' rest) := by
  have hquote : Reader.isQuote (.char '\x7b') = false := by decide
  rw [clauseFrom_cons (by decide)]
  simp [hquote]

/-- The bracket that closes one inside of the clause. -/
theorem clauseFrom_close (depth : Nat) (before : CodePoint) (rest : Text) :
    clauseFrom none (depth + 1) before (.char '\x7d' :: rest) =
      inFront [.char '\x7d'] (clauseFrom none depth '\x7d' rest) := by
  rw [clauseFrom_cons (by decide)]
  simp

/-- A clause ends at the bracket of its marker or at its metadata. -/
theorem clauseFrom_stop {t clause after : Text} (h : clauseFrom quote depth before t = some (clause, after)) :
    (∃ rest, after = .char '\x7d' :: rest) ∨ (metadataMark? after).isSome = true := by
  fun_induction clauseFrom quote depth before t generalizing clause after with
  | case1 => cases h
  | case2 => cases h
  | case3 _ _ _ c rest ih =>
    obtain ⟨_, rfl, h₁⟩ := consClause_eq_some h
    obtain ⟨_, rfl, h₂⟩ := consClause_eq_some h₁
    exact ih h₂
  | case7 =>
    cases h
    exact Or.inl ⟨_, rfl⟩
  | case9 _ _ _ _ _ _ _ _ _ hmark =>
    cases h
    rw [Bool.and_eq_true] at hmark
    exact Or.inr hmark.2
  | case4 | case5 | case6 | case8 | case10 =>
    rename_i ih
    obtain ⟨_, rfl, hi⟩ := consClause_eq_some h
    exact ih hi

/-! ## Inside of brackets -/

/-- Quotes and metadata are nothing there. -/
theorem clauseFrom_deep (hc : c ≠ '\\') (rest : Text) : clauseFrom none (depth + 1) before (c :: rest) =
    if c = '\x7b' then inFront [c] (clauseFrom none (depth + 2) c rest)
    else if c = '\x7d' then inFront [c] (clauseFrom none depth c rest)
    else inFront [c] (clauseFrom none (depth + 1) c rest) := by
  rw [clauseFrom_cons hc]
  simp

/-- The character in front does not matter there either. -/
theorem clauseFrom_deep_before (before before' : CodePoint) (t : Text) :
    clauseFrom none (depth + 1) before t = clauseFrom none (depth + 1) before' t := by
  rcases t with _ | ⟨c, rest⟩
  · rw [clauseFrom, clauseFrom]
  by_cases hc : c = '\\'
  · subst hc
    rcases rest with _ | ⟨d, rest⟩
    · rw [clauseFrom, clauseFrom]
    · rw [clauseFrom_escaped, clauseFrom_escaped]
  · rw [clauseFrom_deep hc, clauseFrom_deep hc]

end

/-- A balanced text is passed over. -/
theorem clauseFrom_balanced {b : Text} (hb : Bracket.Balanced .curly b) (depth : Nat) (before last : CodePoint)
    (t : Text) :
    clauseFrom none (depth + 1) before (b ++ t) = inFront b (clauseFrom none (depth + 1) last t) := by
  induction hb generalizing depth before t with
  | nil =>
    rw [List.nil_append, inFront_nil]
    exact clauseFrom_deep_before before last t
  | escaped _ ih =>
    rw [List.cons_append, List.cons_append, clauseFrom_escaped, ih, inFront_inFront]
    rfl
  | @plain c _ hslash hopen hclose _ ih =>
    have hopen' : c ≠ '\x7b' := hopen
    have hclose' : c ≠ '\x7d' := hclose
    rw [List.cons_append, clauseFrom_deep hslash, if_neg hopen', if_neg hclose', ih, inFront_inFront]
    rfl
  | @pair inside rest _ _ ih ih' =>
    show clauseFrom none (depth + 1) before (.char '\x7b' :: (inside ++ .char '\x7d' :: rest ++ t)) = _
    rw [clauseFrom_open, List.append_assoc, List.cons_append, ih, clauseFrom_close, ih',
      inFront_inFront, inFront_inFront, inFront_inFront, List.append_assoc, List.append_assoc]
    rfl

/-! ## Passing over -/

/-- The reader goes over a text at the outermost level and on to the one behind it. -/
def Passes (s u : Text) : Prop :=
  ∀ before, ∃ last, clauseFrom none 0 before (s ++ u) = inFront s (clauseFrom none 0 last u)

theorem passes_nil (u : Text) : Passes [] u := fun before => ⟨before, by rw [List.nil_append, inFront_nil]⟩

theorem Passes.append {s t u : Text} (hs : Passes s (t ++ u)) (ht : Passes t u) : Passes (s ++ t) u := by
  intro before
  obtain ⟨middle, hs⟩ := hs before
  obtain ⟨last, ht⟩ := ht middle
  exact ⟨last, by rw [List.append_assoc, hs, ht, inFront_inFront]⟩

theorem passes_cons {c : CodePoint} {s u : Text} (hc : IsOrdinary c) (hmark : metadataMark? (c :: (s ++ u)) = none)
    (hs : ∃ last, clauseFrom none 0 c (s ++ u) = inFront s (clauseFrom none 0 last u)) : Passes (c :: s) u := by
  intro before
  obtain ⟨last, hs⟩ := hs
  refine ⟨last, ?_⟩
  rw [List.cons_append, clauseFrom_ordinary hc (Or.inr hmark), hs, inFront_inFront]
  rfl

/-- Only one letter can begin metadata. -/
theorem metadataMark?_eq_none {c : CodePoint} (hc : c ≠ 'm') (t : Text) : metadataMark? (c :: t) = none := by
  have hprefix : "meta".text.isPrefixOf (c :: t) = false := by
    show ((CodePoint.char 'm' == c) && _) = false
    rw [beq_false_of_ne (Ne.symm hc), Bool.false_and]
  rw [metadataMark?, Reader.keyword?, hprefix]
  rfl

theorem eq_of_metadataMark? {c : CodePoint} {t after : Text} (h : metadataMark? (c :: t) = some after) : c = 'm' := by
  by_cases hc : c = 'm'
  · exact hc
  · rw [metadataMark?_eq_none hc] at h
    cases h

/-- The clause ends where metadata begin. -/
theorem clauseFrom_mark {before : CodePoint} (hbefore : Reader.isNameChar before = false) {t after : Text}
    (h : metadataMark? t = some after) : clauseFrom none 0 before t = some ([], t) := by
  rcases t with _ | ⟨c, rest⟩
  · cases h
  have hc := eq_of_metadataMark? h
  subst hc
  rw [clauseFrom_cons (by decide)]
  have hquote : Reader.isQuote (.char 'm') = false := by decide
  simp [hquote, hbefore, h]

theorem passes_plain {s : Text} (hs : ∀ c ∈ s, IsOrdinary c ∧ c ≠ 'm') (u : Text) : Passes s u := by
  induction s with
  | nil => exact passes_nil u
  | cons c s ih =>
    obtain ⟨hc, hm⟩ := hs c List.mem_cons_self
    exact passes_cons hc (metadataMark?_eq_none hm _) (ih (fun d hd => hs d (List.mem_cons_of_mem _ hd)) c)

theorem isOrdinary_of_isNameChar {c : CodePoint} (hc : Reader.isNameChar c = true) : IsOrdinary c :=
  isOrdinary_of_class hc (by decide)

/-- Nothing begins inside a word. -/
theorem clauseFrom_word {s : Text} (hs : ∀ c ∈ s, Reader.isNameChar c = true) (u : Text) {before : CodePoint}
    (hbefore : Reader.isNameChar before = true) :
    ∃ last, clauseFrom none 0 before (s ++ u) = inFront s (clauseFrom none 0 last u) := by
  induction s generalizing before with
  | nil => exact passes_nil u before
  | cons c s ih =>
    have hc := hs c List.mem_cons_self
    obtain ⟨last, hrest⟩ := ih (fun d hd => hs d (List.mem_cons_of_mem _ hd)) hc
    refine ⟨last, ?_⟩
    rw [List.cons_append, clauseFrom_ordinary (isOrdinary_of_isNameChar hc) (Or.inl hbefore), hrest, inFront_inFront]
    rfl

/-- A word passes unless it is the one that begins metadata. -/
theorem passes_word {c : CodePoint} {s : Text} (hs : ∀ d ∈ c :: s, Reader.isNameChar d = true) {u : Text}
    (hu : ∀ d ∈ u.head?, Reader.isNameChar d = false)
    (hcolon : c :: s = "meta".text → Reader.char? ':' (Reader.dropSpaces u) = none) : Passes (c :: s) u := by
  have hc := hs c List.mem_cons_self
  refine passes_cons (isOrdinary_of_isNameChar hc) ?_ (clauseFrom_word (fun d hd => hs d (List.mem_cons_of_mem _ hd)) u hc)
  rw [metadataMark?, Option.bind_eq_none_iff]
  intro after hafter
  obtain ⟨htext, hend⟩ := Reader.keyword?_eq_some_iff.mp hafter
  -- both the word and the keyword are the whole run of name characters
  have hword : c :: s = "meta".text := by
    have hrun : ((c :: s) ++ u).takeWhile Reader.isNameChar = c :: s := Text.takeWhile_run hs hu
    have hrun' : ("meta".text ++ after).takeWhile Reader.isNameChar = "meta".text := by
      rw [Text.takeWhile_append_of_head hend]
      decide
    rw [← hrun, ← hrun', ← htext, List.cons_append]
  have hu : u = after := by
    rw [← List.cons_append, hword] at htext
    exact List.append_cancel_left htext
  rw [← hu]
  exact hcolon hword

/-! ## Quoted texts -/

/-- The other reader ends a quoted text at the same quote. -/
theorem clauseFrom_quoted {q : CodePoint} (hq : Reader.isQuote q = true) {t inside after : Text}
    (h : Reader.quotedBody? q t = some (inside, after)) : ∃ body, t = body ++ after ∧ ∀ before u,
      clauseFrom (some q) 0 before (body ++ u) = inFront body (clauseFrom none 0 q u) := by
  have hslash : q ≠ '\\' := by
    rintro rfl
    revert hq
    decide
  fun_induction Reader.quotedBody? q t generalizing inside after with
  | case1 => cases h
  | case2 rest =>
    cases h
    refine ⟨[q], rfl, ?_⟩
    intro before u
    rw [List.cons_append, clauseFrom_inQuotes hslash, if_pos rfl]
    rfl
  | case3 => cases h
  | case4 d more _ ih =>
    obtain ⟨⟨inside', after'⟩, hm, he⟩ := Option.map_eq_some_iff.mp h
    cases he
    obtain ⟨body, rfl, hbody⟩ := ih hm
    refine ⟨.char '\\' :: d :: body, rfl, ?_⟩
    intro before u
    rw [List.cons_append, List.cons_append, clauseFrom_escaped, hbody, inFront_inFront]
    rfl
  | case5 c rest hne hc ih =>
    obtain ⟨⟨inside', after'⟩, hm, he⟩ := Option.map_eq_some_iff.mp h
    cases he
    obtain ⟨body, rfl, hbody⟩ := ih hm
    refine ⟨c :: body, rfl, ?_⟩
    intro before u
    rw [List.cons_append, clauseFrom_inQuotes hc, if_neg hne, hbody, inFront_inFront]
    rfl

/-! ## Tokens -/

/-- Characters that signs and numbers are written with. -/
def isSignChar (c : CodePoint) : Bool :=
  Reader.isDigit c || c == '+' || c == '-' || c == '.' || c == 'e' || c == 'E' || c == '=' || c == '!' ||
    c == '<' || c == '>'

theorem isOrdinary_of_isSignChar {c : CodePoint} (hc : isSignChar c = true) : IsOrdinary c ∧ c ≠ 'm' :=
  ⟨isOrdinary_of_class hc (by decide), Reader.ne_of_class hc (by decide)⟩

/-- What stands behind some of these characters. -/
def OverSigns (t after : Text) : Prop := ∃ source, t = source ++ after ∧ ∀ c ∈ source, isSignChar c = true

theorem OverSigns.refl (t : Text) : OverSigns t t := ⟨[], rfl, fun c hc => by cases hc⟩

theorem OverSigns.trans {t middle after : Text} (h : OverSigns t middle) (h' : OverSigns middle after) :
    OverSigns t after := by
  obtain ⟨source, rfl, hs⟩ := h
  obtain ⟨source', rfl, hs'⟩ := h'
  refine ⟨source ++ source', (List.append_assoc _ _ _).symm, ?_⟩
  intro c hc
  exact (List.mem_append.mp hc).elim (hs c) (hs' c)

theorem OverSigns.cons {c : CodePoint} {t after : Text} (hc : isSignChar c = true) (h : OverSigns t after) :
    OverSigns (c :: t) after := by
  obtain ⟨source, rfl, hs⟩ := h
  exact ⟨c :: source, rfl, List.forall_mem_cons.mpr ⟨hc, hs⟩⟩

theorem overSigns_comparator {t after : Text} {c : Where.Comparator} (h : Where.Comparator.read? t = some (c, after)) :
    OverSigns t after := by
  unfold Where.Comparator.read? at h
  split at h
  · cases h
    exact ⟨"==".text, rfl, by decide⟩
  · cases h
    exact ⟨"=".text, rfl, by decide⟩
  · cases h
    exact ⟨"!=".text, rfl, by decide⟩
  · cases h
    exact ⟨">=".text, rfl, by decide⟩
  · cases h
    exact ⟨">".text, rfl, by decide⟩
  · cases h
    exact ⟨"<=".text, rfl, by decide⟩
  · cases h
    exact ⟨"<>".text, rfl, by decide⟩
  · cases h
    exact ⟨"<".text, rfl, by decide⟩
  · cases h

theorem overSigns_digits (t : Text) : OverSigns t (t.dropWhile Reader.isDigit) := by
  refine ⟨t.takeWhile Reader.isDigit, List.takeWhile_append_dropWhile.symm, ?_⟩
  intro c hc
  have hdigit : Reader.isDigit c = true := List.mem_takeWhile_imp hc
  rw [isSignChar, hdigit]
  rfl

theorem overSigns_sign (t : Text) : OverSigns t (NumberShape.readSign t).2 := by
  unfold NumberShape.readSign
  split
  · rename_i c rest
    split
    · rename_i hc
      simp only [Bool.or_eq_true, decide_eq_true_eq] at hc
      rcases hc with rfl | rfl
      · exact (OverSigns.refl rest).cons (by decide)
      · exact (OverSigns.refl rest).cons (by decide)
    · exact .refl _
  · exact .refl _

theorem overSigns_exponent {t after : Text} {e : Option (CodePoint × Text × Text)}
    (h : NumberShape.readExponent? t = some (e, after)) : OverSigns t after := by
  rcases NumberShape.readExponent?_cases h with ⟨-, rfl⟩ | ⟨c, rest, rfl, hc, -, -, rfl⟩
  · exact .refl _
  · have hletter : isSignChar c = true := by
      simp only [Bool.or_eq_true, decide_eq_true_eq] at hc
      rcases hc with rfl | rfl
      · decide
      · decide
    exact ((overSigns_sign rest).trans (overSigns_digits _)).cons hletter

theorem overSigns_number {t after : Text} {shape : NumberShape} (h : NumberShape.read? t = some (shape, after)) :
    OverSigns t after := by
  have hwhole := (overSigns_sign t).trans (overSigns_digits _)
  cases NumberShape.begins_of_read? h with
  | @pointed rest _ _ hpoint _ hexponent =>
    rw [hpoint] at hwhole
    have hfraction := (overSigns_digits rest).trans (overSigns_exponent hexponent)
    exact hwhole.trans (hfraction.cons (by decide))
  | unpointed _ _ hexponent => exact hwhole.trans (overSigns_exponent hexponent)

/-- A token is passed over. Only behind the name that metadata begin with does it matter what
    follows: a colon must not. -/
theorem token_passes {c : CodePoint} {rest after : Text} {content : Where.TokenContent}
    (h : Where.Token.read c rest = .ok (content, after)) : ∃ source, c :: rest = source ++ after ∧
      ∀ u, (∀ d ∈ u.head?, Reader.isNameChar d = false) →
        (content = .name "meta".text → Reader.char? ':' (Reader.dropSpaces (after ++ u)) = none) →
        Passes source (after ++ u) := by
  have hsigns : OverSigns (c :: rest) after → ∃ source, c :: rest = source ++ after ∧
      ∀ u, (∀ d ∈ u.head?, Reader.isNameChar d = false) →
        (content = .name "meta".text → Reader.char? ':' (Reader.dropSpaces (after ++ u)) = none) →
        Passes source (after ++ u) := by
    rintro ⟨source, hsource, hs⟩
    exact ⟨source, hsource, fun u _ _ => passes_plain (fun d hd => isOrdinary_of_isSignChar (hs d hd)) _⟩
  cases Where.Token.read_eq_ok_iff.mp h with
  | text hquote hbody =>
    obtain ⟨body, rfl, hpass⟩ := clauseFrom_quoted hquote hbody
    refine ⟨c :: body, rfl, fun u _ _ before => ⟨c, ?_⟩⟩
    rw [List.cons_append, clauseFrom_quote hquote, hpass, inFront_inFront]
    rfl
  | comparator _ _ hcomparator => exact hsigns (overSigns_comparator hcomparator)
  | number _ _ _ hnumber _ => exact hsigns (overSigns_number hnumber)
  | word _ _ _ hword =>
    obtain ⟨htext, hne, hnames, hend⟩ := Reader.name?_spec hword
    obtain ⟨d, letters, rfl⟩ := List.exists_cons_of_ne_nil hne
    refine ⟨d :: letters, htext, fun u hu hcolon => passes_word hnames (fun d hd => ?_) fun hmeta => hcolon ?_⟩
    · rcases after with _ | ⟨e, more⟩
      · exact hu d hd
      · exact hend d hd
    · rw [hmeta]
      decide

/-! ## Whole clauses -/

/-- Tokens of which the last is a literal. -/
def EndsInLiteral (tokens : List Where.Token) : Prop := ∀ t ∈ tokens.getLast?, ∃ l, t.content = .literal l

theorem isOrdinary_of_isSpace {c : CodePoint} (hc : Reader.isSpace c = true) : IsOrdinary c ∧ c ≠ 'm' :=
  ⟨isOrdinary_of_class hc (by decide), Reader.ne_of_class hc (by decide)⟩

theorem passes_spaces (t u : Text) : Passes (t.takeWhile Reader.isSpace) u :=
  passes_plain (fun _ hc => isOrdinary_of_isSpace (List.mem_takeWhile_imp hc)) u

/-- No token begins with a colon. -/
theorem token_ne_colon {c : CodePoint} {rest after : Text} {content : Where.TokenContent}
    (h : Where.Token.read c rest = .ok (content, after)) : c ≠ ':' := by
  rintro rfl
  cases h

theorem EndsInLiteral.tail {t : Where.Token} {tokens : List Where.Token} (h : EndsInLiteral (t :: tokens)) :
    EndsInLiteral tokens := by
  intro last hlast
  refine h last ?_
  rw [List.getLast?_cons, Option.mem_def.mp hlast]
  rfl

/-- What can be read as tokens is passed over. -/
theorem tokensFrom_passes {clause t u : Text} {position : Nat} {tokens : List Where.Token}
    (h : Where.tokensFrom clause position t = .ok tokens) (hlast : EndsInLiteral tokens)
    (hu : ∀ c ∈ u.head?, Reader.isNameChar c = false) : Passes t u := by
  induction hn : t.length using Nat.strong_induction_on generalizing t position tokens with
  | _ n ih =>
    rcases t with _ | ⟨c, rest⟩
    · exact passes_nil u
    obtain ⟨content, after, source', tokens', hread, hrest, rfl⟩ := Where.tokensFrom_cons h
    obtain ⟨source, hsource, hpass⟩ := token_passes hread
    have hshorter : (Reader.dropSpaces after).length < n := hn ▸ Where.Token.behind_length hread
    have hafter : Passes after u := by
      have hspaces := (passes_spaces after _).append (ih _ hshorter hrest hlast.tail rfl)
      rwa [Reader.dropSpaces, List.takeWhile_append_dropWhile] at hspaces
    rw [hsource]
    refine (hpass u hu fun hname => ?_).append hafter
    -- a name is not the last token, and the next one begins with no colon
    rcases hdrop : Reader.dropSpaces after with _ | ⟨d, more⟩
    · rw [hdrop, Where.tokensFrom] at hrest
      cases hrest
      obtain ⟨l, hl⟩ := hlast _ rfl
      rw [hname] at hl
      cases hl
    · rw [hdrop] at hrest
      obtain ⟨_, _, _, _, hread', -⟩ := Where.tokensFrom_cons hrest
      have happend : Reader.dropSpaces (after ++ u) = d :: more ++ u := by
        rw [Reader.dropSpaces] at hdrop ⊢
        rw [List.dropWhile_append, hdrop]
        rfl
      rw [happend, List.cons_append, Reader.char?, if_neg (token_ne_colon hread')]

theorem parse_tokens {w : Text} {c : Where.Clause} (h : Where.parse w = .ok c) :
    ∃ tokens, Where.tokens w = .ok tokens ∧ tokens ≠ [] ∧ EndsInLiteral tokens := by
  obtain ⟨tokens, chain, htokens, hreads, -⟩ := Where.chain_of_parse h
  obtain ⟨front, l, hends⟩ := chain.contents_ends
  have hcontents := hreads.contents
  rw [hends] at hcontents
  obtain ⟨own, last, rfl, -, hlast⟩ := List.map_eq_append_iff.mp hcontents
  obtain ⟨t, rfl, hl⟩ := List.map_eq_singleton_iff.mp hlast
  refine ⟨_, htokens, by simp, ?_⟩
  intro k hk
  rw [List.getLast?_append] at hk
  cases hk
  exact ⟨l, hl⟩

/-- What can be read as a clause is passed over. -/
theorem parse_passes {w u : Text} {c : Where.Clause} (h : Where.parse w = .ok c)
    (hu : ∀ d ∈ u.head?, Reader.isNameChar d = false) : Passes w u := by
  obtain ⟨tokens, htokens, -, hlast⟩ := parse_tokens h
  have hpass := (passes_spaces w _).append (tokensFrom_passes htokens hlast hu)
  rwa [Reader.dropSpaces, List.takeWhile_append_dropWhile] at hpass

theorem not_blank_of_range {c : CodePoint} (hlow : 0x21 ≤ c.toNat) (hhigh : c.toNat ≤ 0x7E) : Text.isBlank c = false := by
  simp only [Text.isBlank, Bool.or_eq_false_iff, Bool.and_eq_false_iff, beq_eq_false_iff_ne, decide_eq_false_iff_not]
  omega

/-- A token begins with a character that is seen. -/
theorem token_not_blank {c : CodePoint} {rest after : Text} {content : Where.TokenContent}
    (h : Where.Token.read c rest = .ok (content, after)) : Text.isBlank c = false := by
  refine Bool.eq_false_iff.mpr ?_
  intro hblank
  have hrange : ∀ a b : Char, 0x21 ≤ a.toNat → b.toNat ≤ 0x7E →
      (decide (CodePoint.char a ≤ c) && decide (c ≤ .char b)) = false := by
    intro a b ha hb
    refine Bool.eq_false_iff.mpr ?_
    intro hab
    rw [Bool.and_eq_true, decide_eq_true_eq, decide_eq_true_eq] at hab
    have hlow : a.toNat ≤ c.toNat := hab.1
    have hhigh : c.toNat ≤ b.toNat := hab.2
    rw [not_blank_of_range (by omega) (by omega)] at hblank
    cases hblank
  have hne : ∀ d : CodePoint, Text.isBlank d = false → c ≠ d := fun d hd => Reader.ne_of_class hblank hd
  have hquote : Reader.isQuote c = false := Reader.isQuote_eq_false (hne _ (by decide)) (hne _ (by decide))
  have hdigit : Reader.isDigit c = false := hrange '0' '9' (by decide) (by decide)
  have hsmall := hrange 'a' 'z' (by decide) (by decide)
  have hcapital := hrange 'A' 'Z' (by decide) (by decide)
  have hletter : (Reader.isLetter c || c == '_') = false := by
    rw [Reader.isLetter, hsmall, hcapital, beq_false_of_ne (hne '_' (by decide))]
    rfl
  have hname : Reader.name? (c :: rest) = none := by
    rw [Reader.name?, hletter]
    rfl
  simp [Where.Token.read, hquote, hdigit, hname, hne '=' (by decide), hne '!' (by decide), hne '<' (by decide),
    hne '>' (by decide), hne '+' (by decide), hne '-' (by decide), hne '.' (by decide)] at h

theorem parse_not_blank {w : Text} {c : Where.Clause} (h : Where.parse w = .ok c) : Text.trim w ≠ [] := by
  obtain ⟨tokens, htokens, hne, -⟩ := parse_tokens h
  rw [Where.tokens] at htokens
  rcases hdrop : Reader.dropSpaces w with _ | ⟨d, rest⟩
  · rw [hdrop, Where.tokensFrom] at htokens
    cases htokens
    exact absurd rfl hne
  · rw [hdrop] at htokens
    obtain ⟨_, _, _, _, hread, -⟩ := Where.tokensFrom_cons htokens
    have hd : d ∈ w := by
      have hsuffix := List.dropWhile_suffix Reader.isSpace (l := w)
      rw [← Reader.dropSpaces, hdrop] at hsuffix
      exact hsuffix.mem List.mem_cons_self
    exact Text.trim_ne_nil hd (token_not_blank hread)

end Errand
