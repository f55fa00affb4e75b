/-
  Errand.Proofs.Where.Rereading — clauses as they are written.

  The tree of a chain is written as its tokens with a space between neighbours, whatever was
  between them before (`Chain.tree_written`). Each of them is read again as what it was, the
  space or the end of the clause behind it, so the tokens read are those of the same chain
  (`tokens_spaced`), and with them the tree is the same (`parse_written`).

  Real numbers are left out: they are written with as many digits as tell them apart, and
  those may not be the ones they were read from.
-/

import Errand.Proofs.Where.Chains

namespace Errand

namespace Where

/-! ## Trees -/

/-- The tokens as they are written, with a space between neighbours. -/
def spaced (ks : List TokenContent) : Text := Text.join " ".text (ks.map TokenContent.written)

theorem spaced_append {as bs : List TokenContent} (ha : as ≠ []) (hb : bs ≠ []) :
    spaced (as ++ bs) = spaced as ++ " ".text ++ spaced bs := by
  rw [spaced, List.map_append, Text.join_append (by simpa using ha) (by simpa using hb)]
  rfl

theorem spaced_singleton (k : TokenContent) : spaced [k] = k.written := Text.join_singleton _ _

theorem spaced_cons (k : TokenContent) {ks : List TokenContent} (hks : ks ≠ []) :
    spaced (k :: ks) = k.written ++ " ".text ++ spaced ks := by
  rw [← List.singleton_append, spaced_append (List.cons_ne_nil _ _) hks, spaced_singleton]

theorem Condition.written_eq (c : Condition) : c.written = spaced c.contents := by
  rw [contents, spaced_cons _ (List.cons_ne_nil _ _), spaced_cons _ (List.cons_ne_nil _ _), spaced_singleton]
  simp only [written, TokenContent.written, List.append_assoc]

theorem Term.tree_written (t : Term) : t.tree.written = spaced t.contents := by
  obtain ⟨isNegated, c⟩ := t
  cases isNegated with
  | true =>
    show "not ".text ++ c.written = spaced (.negation :: c.contents)
    rw [spaced_cons _ c.contents_ne_nil, c.written_eq]
    rfl
  | false => exact c.written_eq

theorem Links.tree_written (links : Links) {first : Expr} {ks : List TokenContent} (hks : ks ≠ [])
    (h : first.written = spaced ks) : (links.tree first).written = spaced (ks ++ links.contents) := by
  induction links generalizing first ks with
  | nil =>
    show first.written = spaced (ks ++ [])
    rw [List.append_nil, h]
  | cons link links ih =>
    obtain ⟨connective, t⟩ := link
    have hjoined : (Expr.joined connective first t.tree).written = spaced (ks ++ .connective connective :: t.contents) := by
      rw [spaced_append hks (List.cons_ne_nil _ _), spaced_cons _ t.contents_ne_nil, Expr.written, h, t.tree_written]
      simp only [TokenContent.written, List.append_assoc]
    have hrest := ih (by simp) hjoined
    rw [List.append_assoc] at hrest
    exact hrest

/-- A tree is written as the tokens of its chain. -/
theorem Chain.tree_written (c : Chain) : c.tree.written = spaced c.contents :=
  c.links.tree_written c.first.contents_ne_nil c.first.tree_written

/-! ## Tokens -/

/-- What is written with spaces between is read token by token. -/
theorem tokensFrom_spaced {ks : List TokenContent} (hks : ∀ k ∈ ks, k.IsProper ∧ ¬k.IsReal) (clause : Text)
    (position : Nat) : ∃ found, tokensFrom clause position (spaced ks) = .ok found ∧ found.map Token.content = ks ∧
      Reader.dropSpaces (spaced ks) = spaced ks := by
  induction ks generalizing position with
  | nil => exact ⟨[], by rw [spaced]; exact tokensFrom.eq_1 _ _, rfl, rfl⟩
  | cons k ks ih =>
    obtain ⟨⟨hproper, hreal⟩, hks⟩ := List.forall_mem_cons.mp hks
    -- behind the first token the clause ends or a space stands, and the others behind it
    obtain ⟨rest, hrest, htext, hdrop⟩ : ∃ rest : Text, Token.Spaced rest ∧ spaced (k :: ks) = k.written ++ rest ∧
        Reader.dropSpaces rest = spaced ks := by
      obtain ⟨-, -, -, hdrop⟩ := ih hks 0
      rcases ks with _ | ⟨k', ks⟩
      · refine ⟨[], ?_, by rw [spaced_singleton, List.append_nil], rfl⟩
        intro c hc
        cases hc
      · refine ⟨" ".text ++ spaced (k' :: ks), ?_, ?_, hdrop⟩
        · intro c hc
          cases hc
          rfl
        · rw [spaced_cons _ (List.cons_ne_nil _ _), List.append_assoc]
    obtain ⟨c, more, hc, hspace, hread⟩ := Token.read_written hproper hreal hrest
    obtain ⟨source, hfirst⟩ := tokensFrom_read clause position hread
    obtain ⟨found, hfound, hcontents, -⟩ := ih hks _
    rw [htext, hc, hfirst, hdrop, hfound]
    refine ⟨_, rfl, by rw [List.map_cons, hcontents], ?_⟩
    rw [Reader.dropSpaces, List.dropWhile_cons_of_neg (by simp [hspace])]

theorem tokens_spaced {ks : List TokenContent} (hks : ∀ k ∈ ks, k.IsProper ∧ ¬k.IsReal) :
    ∃ found, tokens (spaced ks) = .ok found ∧ found.map Token.content = ks := by
  obtain ⟨-, -, -, hdrop⟩ := tokensFrom_spaced hks [] 0
  obtain ⟨found, hfound, hcontents, -⟩ :=
    tokensFrom_spaced hks (spaced ks) ((spaced ks).takeWhile Reader.isSpace).length
  exact ⟨found, by rw [tokens, hdrop, hfound], hcontents⟩

/-! ## Clauses -/

namespace Expr

/-- The literals of a tree from left to right. -/
def literals : Expr → List Literal
  | .condition c => [c.literal]
  | .negation e => e.literals
  | .joined _ a b => a.literals ++ b.literals

end Expr

theorem Term.tree_literals (t : Term) : t.tree.literals = [t.condition.literal] := by
  obtain ⟨isNegated, c⟩ := t
  cases isNegated with
  | true => rfl
  | false => rfl

theorem Links.tree_literals (links : Links) (first : Expr) :
    (links.tree first).literals = first.literals ++ links.map (·.2.condition.literal) := by
  induction links generalizing first with
  | nil => exact (List.append_nil _).symm
  | cons link links ih =>
    obtain ⟨connective, t⟩ := link
    show (Links.tree links (.joined connective first t.tree)).literals = _
    rw [ih, Expr.literals, t.tree_literals, List.append_assoc]
    rfl

theorem Term.literal_of_contents {t : Term} {l : Literal} (h : .literal l ∈ t.contents) : l = t.condition.literal := by
  obtain ⟨isNegated, c⟩ := t
  cases isNegated with
  | true => simpa [contents, Condition.contents] using h
  | false => simpa [contents, Condition.contents] using h

theorem Chain.literal_of_contents {c : Chain} {l : Literal} (h : .literal l ∈ c.contents) : l ∈ c.tree.literals := by
  rw [tree, Links.tree_literals, Term.tree_literals, List.mem_append, List.mem_singleton, List.mem_map]
  rw [contents, List.mem_append] at h
  rcases h with h | h
  · exact Or.inl (Term.literal_of_contents h)
  · obtain ⟨link, hlink, h⟩ := List.mem_flatMap.mp h
    rcases List.mem_cons.mp h with h | h
    · cases h
    · exact Or.inr ⟨link, hlink, (Term.literal_of_contents h).symm⟩

/-- The tree of a chain of what can stand in a clause is read from the way it is written. -/
theorem parse_tree_written {c : Chain} (hks : ∀ k ∈ c.contents, k.IsProper ∧ ¬k.IsReal)
    (hcomparable : ∀ t ∈ c.terms, t.condition.IsComparable) : parse c.tree.written = .ok ⟨c.tree.written, c.tree⟩ := by
  obtain ⟨found, hfound, hcontents⟩ := tokens_spaced hks
  rw [← c.tree_written] at hfound
  exact (parse_eq_ok_iff hfound).mpr ⟨c, ⟨hcontents, hcomparable⟩, rfl⟩

/-- A clause without real numbers is read again, from the way it is written, as the tree it is. -/
theorem parse_written {w : Text} {c : Clause} (h : parse w = .ok c)
    (hreal : ∀ x, .number (.real x) ∉ c.root.literals) :
    ∃ c', parse c.root.written = .ok c' ∧ c'.root = c.root := by
  obtain ⟨found, chain, hfound, hreads, rfl⟩ := chain_of_parse h
  refine ⟨_, parse_tree_written ?_ hreads.comparable, rfl⟩
  intro k hk
  constructor
  · rw [← hreads.contents] at hk
    obtain ⟨t, ht, rfl⟩ := List.mem_map.mp hk
    exact tokens_proper hfound t ht
  · rintro ⟨x, rfl⟩
    exact hreal x (Chain.literal_of_contents hk)

/-- Words in capitals, spellings of one comparator, signs, both kinds of quotes and a backslash in
    front of a character that needs none. -/
def unkempt : Text := "NOT a<>'\\n \"'  And b == +07 xOR c = TRUE".text

def unkemptTree : Expr :=
  .joined .xor
    (.joined .and (.negation (.condition ⟨"a".text, .unequal, .text "\\n \"".text⟩))
      (.condition ⟨"b".text, .equal, .number (.integer 7)⟩))
    (.condition ⟨"c".text, .equal, .bool true⟩)

theorem parse_written_unkempt : ∃ c, parse unkempt = .ok c ∧ (∀ x, .number (.real x) ∉ c.root.literals) ∧
    c.root.written = "not a != \"\\\\n \\\"\" and b = 7 xor c = true".text ∧
    ∃ c', parse c.root.written = .ok c' ∧ c'.root = c.root := by
  have hroot : (parse unkempt).toOption.map Clause.root = some unkemptTree := by decide +kernel
  rcases hc : parse unkempt with f | c
  · rw [hc] at hroot
    cases hroot
  · rw [hc] at hroot
    have htree : c.root = unkemptTree := Option.some.inj hroot
    have hreal : ∀ x, .number (.real x) ∉ c.root.literals := by
      intro x
      simp [htree, unkemptTree, Expr.literals]
    exact ⟨c, rfl, hreal, by rw [htree]; decide +kernel, parse_written hc hreal⟩

end Where

end Errand
