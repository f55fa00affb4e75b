/-
  Errand.Proofs.Where.Quoting — quoted texts, read, passed over and written.

  A quoted text is read for what it holds, or passed over without a look at that. Both end
  behind the same quote (`Reader.afterQuoted_eq`): what a backslash is in front of makes a
  difference to what is held, and none to where the text ends. Where no quote ends it, nothing is
  left to read on from, a backslash at the very end included.

  - `quotations_agree`: this, and that a text written in quotes is read as itself, whatever
    stands behind it, and is one token of a clause.
-/

import Errand.Proofs.Where.Tokens

namespace Errand

/-! ## Reading and passing over -/

namespace Reader

theorem ne_backslash_of_isQuote {c : CodePoint} (hc : isQuote c = true) : c ≠ '\\' := by
  intro h
  subst h
  revert hc
  decide

theorem afterQuotedBody_escaped (quote c : CodePoint) (t : Text) :
    afterQuotedBody quote (.char '\\' :: c :: t) = afterQuotedBody quote t := by
  rw [afterQuotedBody]

theorem afterQuotedBody_cons {c : CodePoint} (hc : c ≠ '\\') (quote : CodePoint) (t : Text) :
    afterQuotedBody quote (c :: t) = if c = quote then t else afterQuotedBody quote t := by
  rw [afterQuotedBody.eq_def]
  split
  · rename_i h
    cases h
  · rename_i h
    cases h
    exact absurd rfl hc
  · rename_i h
    cases h
    exact absurd rfl hc
  · rename_i h
    cases h
    rfl

/-- The inside of a quoted text is passed over to where it is read to. -/
theorem afterQuotedBody_eq {quote : CodePoint} (hquote : quote ≠ '\\') (t : Text) :
    afterQuotedBody quote t = ((quotedBody? quote t).map (·.2)).getD [] := by
  fun_induction quotedBody? quote t with
  | case1 => rfl
  | case2 rest =>
    rw [afterQuotedBody_cons hquote, if_pos rfl]
    rfl
  | case3 => rfl
  | case4 d more _ ih =>
    rw [afterQuotedBody_escaped, ih, Option.map_map]
    rfl
  | case5 c rest hc hslash ih =>
    rw [afterQuotedBody_cons hslash, if_neg hc, ih, Option.map_map]
    rfl

theorem afterQuoted_eq {c : CodePoint} (hc : isQuote c = true) (t : Text) :
    afterQuoted (c :: t) = ((quoted? (c :: t)).map (·.2)).getD [] := by
  rw [afterQuoted, quoted?, if_pos hc]
  exact afterQuotedBody_eq (ne_backslash_of_isQuote hc) t

/-- What follows a quoted text is what stands behind a later place. -/
theorem quoted?_stop {t inside after : Text} {place : Nat} (h : quoted? (t.drop place) = some (inside, after)) :
    ∃ stop, place < stop ∧ stop ≤ t.length ∧ after = t.drop stop := by
  rcases hdrop : t.drop place with _ | ⟨c, rest⟩
  · rw [hdrop] at h
    cases h
  · rw [hdrop, quoted?] at h
    split at h
    · obtain ⟨front, rfl⟩ := (List.suffix_cons _ _).trans (quotedBody?_closes h)
      have ht : t.length - place = front.length + after.length + 1 := by
        rw [← List.length_drop, hdrop, List.length_cons, List.length_append]
      refine ⟨place + (front.length + 1), by omega, by omega, ?_⟩
      rw [← List.drop_drop, hdrop, List.drop_succ_cons, List.drop_left]
    · cases h

end Reader

/-! ## Reading what was written -/

namespace Where

theorem quoted?_quote (t rest : Text) : Reader.quoted? (quote t ++ rest) = some (t, rest) := by
  have hquote : quote t ++ rest = .char '"' :: (escaped t ++ .char '"' :: rest) := by
    simp only [quote, List.append_assoc]
    rfl
  rw [hquote, Reader.quoted?, if_pos (by decide), quotedBody?_escaped]

/-- A clause of one token. -/
theorem tokensFrom_alone (clause : Text) (position : Nat) {c : CodePoint} {rest : Text} {content : TokenContent}
    (h : Token.read c rest = .ok (content, [])) :
    tokensFrom clause position (c :: rest) = .ok [⟨content, c :: rest, position⟩] := by
  have hend : Reader.dropSpaces [] = [] := rfl
  rw [tokensFrom_source clause position h, hend, List.length_nil, Nat.sub_zero, List.take_length, tokensFrom]
  rfl

theorem tokens_quote (t : Text) : tokens (quote t) = .ok [⟨.literal (.text t), quote t, 0⟩] := by
  obtain ⟨c, more, hquote, hspace, hread⟩ := Token.read_quote t []
  rw [List.append_nil] at hquote
  have hstart : (quote t).takeWhile Reader.isSpace = [] := by
    rw [hquote, List.takeWhile_cons_of_neg (by simp [hspace])]
  have hdrop : Reader.dropSpaces (quote t) = quote t := by
    rw [Reader.dropSpaces, hquote, List.dropWhile_cons_of_neg (by simp [hspace])]
  rw [tokens, hstart, hdrop, hquote]
  exact tokensFrom_alone _ 0 hread

/-- All that reads quoted texts agrees, with one another and with what writes them. A quoted text
    that is read from one place up to another is passed over up to that place, and up to the end of the text
    if it cannot be read; a text written in quotes is read as itself, whatever follows; and it is
    one token. -/
theorem quotations_agree :
    (∀ (t : Text) (place : Nat) (c : CodePoint), t[place]? = some c → Reader.isQuote c = true →
      (∀ inside after, Reader.quoted? (t.drop place) = some (inside, after) →
        ∃ stop, place < stop ∧ stop ≤ t.length ∧ after = t.drop stop ∧
          Reader.afterQuoted (t.drop place) = t.drop stop) ∧
      (Reader.quoted? (t.drop place) = none → Reader.afterQuoted (t.drop place) = [])) ∧
    (∀ t rest : Text, Reader.quoted? (quote t ++ rest) = some (t, rest)) ∧
    ∀ t : Text, tokens (quote t) = .ok [⟨.literal (.text t), quote t, 0⟩] := by
  refine ⟨?_, quoted?_quote, tokens_quote⟩
  intro t place c hc hquote
  obtain ⟨hplace, rfl⟩ := List.getElem?_eq_some_iff.mp hc
  have hdrop : t.drop place = t[place] :: t.drop (place + 1) := List.drop_eq_getElem_cons hplace
  have hafter := Reader.afterQuoted_eq hquote (t.drop (place + 1))
  rw [← hdrop] at hafter
  constructor
  · intro inside after hread
    obtain ⟨stop, hlater, hwithin, hstop⟩ := Reader.quoted?_stop hread
    refine ⟨stop, hlater, hwithin, hstop, ?_⟩
    rw [hafter, hread]
    exact hstop
  · intro hread
    rw [hafter, hread]
    rfl

/-- A quoted text that holds a quote, and one whose last quote is out of play: it is passed over to the end. -/
theorem quotations_agree_unended :
    Reader.quoted? ("= '\\'' or 'b\\'".text.drop 2) = some ("'".text, " or 'b\\'".text) ∧
      Reader.afterQuoted ("= '\\'' or 'b\\'".text.drop 2) = " or 'b\\'".text ∧
      Reader.quoted? ("= '\\'' or 'b\\'".text.drop 10) = none ∧
      Reader.afterQuoted ("= '\\'' or 'b\\'".text.drop 10) = [] ∧
      quote "\"\\".text = "\"\\\"\\\\\"".text ∧
      Reader.quoted? (quote "\"\\".text ++ "\"".text) = some ("\"\\".text, "\"".text) := by
  have hfirst : Reader.quoted? ("= '\\'' or 'b\\'".text.drop 2) = some ("'".text, " or 'b\\'".text) := by decide +kernel
  have hsecond : Reader.quoted? ("= '\\'' or 'b\\'".text.drop 10) = none := by decide +kernel
  obtain ⟨hagree, hwritten, -⟩ := quotations_agree
  refine ⟨hfirst, ?_, hsecond, ?_, by decide, hwritten _ _⟩
  · obtain ⟨stop, -, -, hstop, hpassed⟩ := (hagree _ 2 '\'' (by decide) (by decide)).1 _ _ hfirst
    exact hpassed.trans hstop.symm
  · exact (hagree _ 10 '\'' (by decide) (by decide)).2 hsecond

end Where

end Errand
