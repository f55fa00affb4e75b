/-
  Errand.Proofs.Where.Tokens — the tokens that clauses are made of.

  A token could hold more than can be written in a clause. What one that was read holds is
  `IsProper` (`tokens_proper`): one of the comparators and connectives there are, a name
  that stands for nothing else, an integer of no more digits than an integer may have.

  What is proper can be written, and is read again as what it was, in front of a space or at
  the end of the clause (`Token.read_written`). Real numbers alone are left out of this.
-/

import Errand.Proofs.Run
import Errand.Proofs.Text.Decimal
import Errand.Proofs.Text.Readers
import Errand.Proofs.Text.Runs
import Errand.Where.Clause

namespace Errand.Where

/-! ## What can stand in a clause -/

def Comparator.IsProper (c : Comparator) : Prop := ∀ sign, c ≠ .other sign

def Connective.IsProper (c : Connective) : Prop := ∀ word, c ≠ .other word

def Literal.IsProper : Literal → Prop
  | .text _ | .number (.real _) | .bool _ | .null => True
  | .number (.integer n) => (decimal n.natAbs).length ≤ Numeral.maxDigits
  | .asNumber _ _ | .asTruth _ _ | .asText => False

def TokenContent.IsProper : TokenContent → Prop
  | .name t => Reader.name? t = some (t, []) ∧ Token.ofWord t = .name t
  | .comparator c => c.IsProper
  | .literal l => l.IsProper
  | .connective c => c.IsProper
  | .negation => True

theorem Comparator.read?_proper {t after : Text} {c : Comparator} (h : read? t = some (c, after)) : c.IsProper := by
  rintro sign rfl
  unfold read? at h
  split at h
  all_goals cases h

theorem Token.ofWord_proper {word : Text} (h : Reader.name? word = some (word, [])) : (ofWord word).IsProper := by
  generalize hk : ofWord word = content
  have hof := hk
  unfold ofWord at hk
  dsimp only at hk
  repeat' split at hk
  all_goals subst hk
  -- the connectives, the negation, the literals in words, and the names
  · rintro word ⟨⟩
  · rintro word ⟨⟩
  · rintro word ⟨⟩
  · trivial
  · trivial
  · trivial
  · trivial
  · exact ⟨h, hof⟩

theorem number_proper {t after : Text} {s : NumberShape} {n : Number} (h : NumberShape.read? t = some (s, after))
    (hn : s.value? = some n) : (Literal.number n).IsProper := by
  cases n with
  | integer n => exact NumberShape.value?_integer_length h hn
  | real x => trivial

/-- What a token that was read holds can stand in a clause. -/
theorem Token.read_proper {c : CodePoint} {rest after : Text} {content : TokenContent}
    (h : Token.read c rest = .ok (content, after)) : content.IsProper := by
  cases Token.read_eq_ok_iff.mp h with
  | text _ _ => trivial
  | comparator _ _ hcomparator => exact Comparator.read?_proper hcomparator
  | number _ _ _ hnumber hvalue => exact number_proper hnumber hvalue
  | word _ _ _ hword => exact ofWord_proper (Reader.name?_word hword)

/-! ## Whole clauses -/

theorem Token.behind_length {c : CodePoint} {rest after : Text} {content : TokenContent}
    (h : Token.read c rest = .ok (content, after)) : (Reader.dropSpaces after).length < (c :: rest).length :=
  Nat.lt_of_le_of_lt (Reader.length_dropWhile_le Reader.isSpace after) (Token.read_length h)

theorem tokensFrom_fault (clause : Text) {rest : Text} {c : CodePoint} {reason : Reason} (position : Nat)
    (h : Token.read c rest = .error reason) :
    tokensFrom clause position (c :: rest) = .error ⟨reason, clause, position⟩ := by
  rw [tokensFrom]
  split
  · rename_i hfault
    rw [h] at hfault
    cases hfault
    rfl
  · rename_i hok
    rw [h] at hok
    cases hok

/-- The first token is written with what was read of it, and the next one begins where the spaces behind
    it end. -/
theorem tokensFrom_source (clause : Text) {rest after : Text} {c : CodePoint} {content : TokenContent} (position : Nat)
    (h : Token.read c rest = .ok (content, after)) : tokensFrom clause position (c :: rest) =
      (tokensFrom clause (position + ((c :: rest).length - (Reader.dropSpaces after).length))
        (Reader.dropSpaces after)).map
        (⟨content, (c :: rest).take ((c :: rest).length - after.length), position⟩ :: ·) := by
  rw [tokensFrom]
  split
  · rename_i hfault
    rw [h] at hfault
    cases hfault
  · rename_i hok
    rw [h] at hok
    cases hok
    have hlength := Token.read_length h
    have hspaces : (after.takeWhile Reader.isSpace).length + (Reader.dropSpaces after).length = after.length := by
      rw [← List.length_append, Reader.dropSpaces, List.takeWhile_append_dropWhile]
    have hplace : position + ((c :: rest).take ((c :: rest).length - after.length)).length +
        (after.takeWhile Reader.isSpace).length =
        position + ((c :: rest).length - (Reader.dropSpaces after).length) := by
      rw [List.length_take]
      omega
    dsimp only
    rw [hplace]

theorem tokensFrom_read (clause : Text) {rest after : Text} {c : CodePoint} {content : TokenContent} (position : Nat)
    (h : Token.read c rest = .ok (content, after)) : ∃ source, tokensFrom clause position (c :: rest) =
      (tokensFrom clause (position + ((c :: rest).length - (Reader.dropSpaces after).length))
        (Reader.dropSpaces after)).map (⟨content, source, position⟩ :: ·) :=
  ⟨_, tokensFrom_source clause position h⟩

/-- The first of the tokens and the others. -/
theorem tokensFrom_cons {clause rest : Text} {c : CodePoint} {position : Nat} {tokens : List Token}
    (h : tokensFrom clause position (c :: rest) = .ok tokens) :
    ∃ content after source tokens', Token.read c rest = .ok (content, after) ∧
      tokensFrom clause (position + ((c :: rest).length - (Reader.dropSpaces after).length))
        (Reader.dropSpaces after) = .ok tokens' ∧
      tokens = ⟨content, source, position⟩ :: tokens' := by
  rcases hread : Token.read c rest with f | ⟨content, after⟩
  · rw [tokensFrom_fault clause position hread] at h
    cases h
  · obtain ⟨source, hstep⟩ := tokensFrom_read clause position hread
    rw [hstep] at h
    obtain ⟨tokens', hrest, rfl⟩ := exists_of_map_eq_ok h
    exact ⟨content, after, source, tokens', rfl, hrest, rfl⟩

theorem tokensFrom_proper {clause t : Text} {position : Nat} {tokens : List Token}
    (h : tokensFrom clause position t = .ok tokens) : ∀ k ∈ tokens, k.content.IsProper := by
  induction hn : t.length using Nat.strong_induction_on generalizing t position tokens with
  | _ n ih =>
    rcases t with _ | ⟨c, rest⟩
    · rw [tokensFrom] at h
      cases h
      intro k hk
      cases hk
    · obtain ⟨content, after, source, tokens', hread, hrest, rfl⟩ := tokensFrom_cons h
      have hshorter : (Reader.dropSpaces after).length < n := hn ▸ Token.behind_length hread
      exact List.forall_mem_cons.mpr ⟨Token.read_proper hread, ih _ hshorter hrest rfl⟩

theorem tokens_proper {clause : Text} {found : List Token} (h : tokens clause = .ok found) :
    ∀ k ∈ found, k.content.IsProper := tokensFrom_proper h

/-! ## Tokens as they are written -/

def TokenContent.written : TokenContent → Text
  | .name t => t
  | .comparator c => c.sign
  | .literal l => l.written
  | .connective c => c.word
  | .negation => "not".text

/-- Whether a token holds a real number. -/
def TokenContent.IsReal (k : TokenContent) : Prop := ∃ x, k = .literal (.number (.real x))

theorem escaped_cons (c : CodePoint) (t : Text) :
    escaped (c :: t) = (if c = '"' ∨ c = '\\' then [.char '\\', c] else [c]) ++ escaped t := by
  show Text.replaceChar '"' _ (Text.replaceChar '\\' _ (c :: t)) = _
  rw [Text.replaceChar, Text.replaceChar, List.flatMap_cons, List.flatMap_append]
  congr 1
  by_cases hslash : c = '\\'
  · subst hslash
    decide
  · by_cases hquote : c = '"'
    · subst hquote
      decide
    · simp [hslash, hquote]

/-- What was escaped is the inside of a quoted text. -/
theorem quotedBody?_escaped (t rest : Text) :
    Reader.quotedBody? '"' (escaped t ++ .char '"' :: rest) = some (t, rest) := by
  induction t with
  | nil =>
    show Reader.quotedBody? '"' (.char '"' :: rest) = _
    rw [Reader.quotedBody?.eq_def]
    exact if_pos rfl
  | cons c t ih =>
    rw [escaped_cons]
    split
    · rename_i hc
      show Reader.quotedBody? '"' (.char '\\' :: c :: (escaped t ++ .char '"' :: rest)) = _
      rw [Reader.quotedBody?.eq_def]
      dsimp only
      rw [if_neg (by decide), if_pos rfl, ih, Option.map_some, if_pos (by simpa using hc)]
      rfl
    · rename_i hc
      rw [not_or] at hc
      show Reader.quotedBody? '"' (c :: (escaped t ++ .char '"' :: rest)) = _
      rw [Reader.quotedBody?.eq_def]
      dsimp only
      rw [if_neg hc.1, if_neg hc.2, ih]
      rfl

namespace Token

/-- The token is read from what begins here, and it begins without a space. -/
def ReadsAs (t : Text) (k : TokenContent) (rest : Text) : Prop :=
  ∃ c more, t = c :: more ∧ Reader.isSpace c = false ∧ read c more = .ok (k, rest)

/-- What may stand behind a token as it is written. -/
def Spaced (rest : Text) : Prop := ∀ c ∈ rest.head?, c = ' '

theorem Spaced.head {rest : Text} (h : Spaced rest) {p : CodePoint → Prop} (hp : p ' ') : ∀ c ∈ rest.head?, p c := by
  intro c hc
  rw [h c hc]
  exact hp

theorem Spaced.cases {rest : Text} (h : Spaced rest) : rest = [] ∨ ∃ more, rest = .char ' ' :: more := by
  rcases rest with _ | ⟨c, more⟩
  · exact Or.inl rfl
  · exact Or.inr ⟨more, by rw [h c rfl]⟩

theorem read_word (word : Text) {rest : Text} (h : Reader.name? word = some (word, [])) (hrest : Spaced rest) :
    ReadsAs (word ++ rest) (ofWord word) rest := by
  have hread := Reader.name?_append h (hrest.head (p := fun c => Reader.isNameChar c = false) (by decide))
  obtain ⟨-, hne, -, -⟩ := Reader.name?_spec h
  obtain ⟨c, letters, rfl⟩ := List.exists_cons_of_ne_nil hne
  have hstart := Reader.isNameStart_of_name? h
  have hc : ∀ d : CodePoint, (Reader.isLetter d || d == '_') = false → c ≠ d := fun d hd =>
    Reader.ne_of_class (p := fun d => Reader.isLetter d || d == '_') hstart hd
  have hquote : Reader.isQuote c = false := Reader.isQuote_eq_false (hc _ (by decide)) (hc _ (by decide))
  have hdigit := Reader.not_digit_of_isNameStart hstart
  refine ⟨c, letters ++ rest, rfl, Reader.not_space_of_isNameStart hstart, ?_⟩
  rw [List.cons_append] at hread
  simp only [read, hquote, hdigit, hc '=' (by decide), hc '!' (by decide), hc '<' (by decide), hc '>' (by decide),
    hc '+' (by decide), hc '-' (by decide), hc '.' (by decide), hread, decide_false, Bool.or_false, Bool.false_eq_true,
    if_false]

theorem read_comparator {c : Comparator} (hc : c.IsProper) {rest : Text} (hrest : Spaced rest) :
    ReadsAs (c.sign ++ rest) (.comparator c) rest := by
  cases c with
  | other sign => exact absurd rfl (hc sign)
  | equal | unequal | greater | atLeast | less | atMost =>
    rcases hrest.cases with rfl | ⟨more, rfl⟩
    · exact ⟨_, _, rfl, rfl, rfl⟩
    · exact ⟨_, _, rfl, rfl, rfl⟩

theorem read_connective {c : Connective} (hc : c.IsProper) {rest : Text} (hrest : Spaced rest) :
    ReadsAs (c.word ++ rest) (.connective c) rest := by
  cases c with
  | other word => exact absurd rfl (hc word)
  | and => exact read_word "and".text (by decide) hrest
  | or => exact read_word "or".text (by decide) hrest
  | xor => exact read_word "xor".text (by decide) hrest

theorem read_quote (t rest : Text) : ReadsAs (quote t ++ rest) (.literal (.text t)) rest := by
  refine ⟨'"', escaped t ++ .char '"' :: rest, ?_, by decide, ?_⟩
  · simp only [quote, List.append_assoc]
    rfl
  · rw [read, if_pos (by decide), quotedBody?_escaped]

theorem endsInteger_spaced {rest : Text} (h : Spaced rest) : NumberShape.EndsInteger rest where
  undigit := h.head (p := fun c => Reader.isDigit c = false) (by decide)
  unpointed := h.head (p := fun c => c ≠ '.') (by decide)
  unlettered := h.head (p := fun c => c ≠ 'e' ∧ c ≠ 'E') (by decide)

/-- An integer begins with a digit or a minus sign. -/
theorem signedDecimal_first (n : Int) :
    ∃ c more, signedDecimal n = c :: more ∧ (Reader.isDigit c || c == '-') = true := by
  cases n with
  | ofNat k =>
    obtain ⟨c, more, hc⟩ := List.exists_cons_of_ne_nil (decimal_ne_nil k)
    have hdigit : Reader.isDigit c = true := isDigit_of_decimal (n := k) (hc ▸ List.mem_cons_self)
    exact ⟨c, more, hc, by rw [hdigit, Bool.true_or]⟩
  | negSucc k => exact ⟨_, _, rfl, rfl⟩

theorem read_integer {n : Int} (hn : (decimal n.natAbs).length ≤ Numeral.maxDigits) {rest : Text} (hrest : Spaced rest) :
    ReadsAs (signedDecimal n ++ rest) (.literal (.number (.integer n))) rest := by
  obtain ⟨s, hread, hvalue⟩ := NumberShape.read?_signedDecimal hn (endsInteger_spaced hrest)
  obtain ⟨c, more, hc, hfirst⟩ := signedDecimal_first n
  have hne : ∀ d : CodePoint, (Reader.isDigit d || d == '-') = false → c ≠ d := fun d hd =>
    Reader.ne_of_class (p := fun d => Reader.isDigit d || d == '-') hfirst hd
  have hquote : Reader.isQuote c = false := Reader.isQuote_eq_false (hne _ (by decide)) (hne _ (by decide))
  have hsign : (Reader.isDigit c || c = '+' || c = '-' || c = '.') = true := by
    rw [Bool.or_eq_true, beq_iff_eq] at hfirst
    rcases hfirst with hdigit | rfl
    · simp [hdigit]
    · decide
  refine ⟨c, more ++ rest, by rw [hc, List.cons_append], ?_, ?_⟩
  · simp [Reader.isSpace, hne ' ' (by decide), hne '\t' (by decide), hne '\n' (by decide), hne '\r' (by decide),
      hne '\x0c' (by decide), hne '\x0b' (by decide)]
  · rw [hc, List.cons_append] at hread
    simp only [read, hquote, hsign, hne '=' (by decide), hne '!' (by decide), hne '<' (by decide), hne '>' (by decide),
      hread, hvalue, decide_false, Bool.or_false, Bool.false_eq_true, if_false, if_true]

theorem read_literal {l : Literal} (hl : l.IsProper) (hreal : ∀ x, l ≠ .number (.real x)) {rest : Text}
    (hrest : Spaced rest) : ReadsAs (l.written ++ rest) (.literal l) rest := by
  cases l with
  | text t => exact read_quote t rest
  | number n =>
    cases n with
    | integer n => exact read_integer hl hrest
    | real x => exact absurd rfl (hreal x)
  | bool b =>
    cases b with
    | true => exact read_word "true".text (by decide) hrest
    | false => exact read_word "false".text (by decide) hrest
  | null => exact read_word "null".text (by decide) hrest
  | asNumber _ _ | asTruth _ _ | asText => exact hl.elim

/-- What can stand in a clause is read as it was written. -/
theorem read_written {k : TokenContent} (hk : k.IsProper) (hreal : ¬k.IsReal) {rest : Text} (hrest : Spaced rest) :
    ReadsAs (k.written ++ rest) k rest := by
  cases k with
  | name t =>
    have hname := read_word _ hk.1 hrest
    rwa [hk.2] at hname
  | comparator c => exact read_comparator hk hrest
  | literal l => exact read_literal hk (fun x hx => hreal ⟨x, by rw [hx]⟩) hrest
  | connective c => exact read_connective hk hrest
  | negation => exact read_word "not".text (by decide) hrest

end Token

end Errand.Where
