/-
  Errand.Proofs.Where.Shapes — trees that differ in their literals.

  The shape of a tree is the tree without its literals; with them, from left to right, it is
  the tree again (`Expr.eq_of_shape`). So the tokens of a clause, which are the contents of its
  tree (`contents_of_parse`), say what the shape leaves open.

  A text can stand in a clause wherever another one can: if the tokens of two clauses are the
  same but for the texts in literals, both are read, as trees of one shape (`parse_alike`).
-/

import Errand.Proofs.Where.Rereading
import Mathlib.Data.List.Forall2

namespace Errand.Where

/-! ## Shapes -/

namespace Expr

/-- A tree without its literals. -/
def shape : Expr → Expr
  | .condition c => .condition { c with literal := .null }
  | .negation e => .negation e.shape
  | .joined connective a b => .joined connective a.shape b.shape

/-- What the tokens of a tree hold, from left to right. -/
def contents : Expr → List TokenContent
  | .condition c => c.contents
  | .negation e => .negation :: e.contents
  | .joined connective a b => a.contents ++ .connective connective :: b.contents

variable {e e' : Expr}

theorem literals_length_of_shape (h : e.shape = e'.shape) : e.literals.length = e'.literals.length := by
  induction e generalizing e' with
  | condition c =>
    cases e' with
    | condition c' => rfl
    | negation e' => cases h
    | joined connective a' b' => cases h
  | negation e ih =>
    cases e' with
    | condition c' => cases h
    | negation e' =>
      rw [shape, shape, Expr.negation.injEq] at h
      rw [literals, literals, ih h]
    | joined connective a' b' => cases h
  | joined connective a b iha ihb =>
    cases e' with
    | condition c' => cases h
    | negation e' => cases h
    | joined connective' a' b' =>
      rw [shape, shape, Expr.joined.injEq] at h
      obtain ⟨-, ha, hb⟩ := h
      rw [literals, literals, List.length_append, List.length_append, iha ha, ihb hb]

theorem eq_of_shape (h : e.shape = e'.shape) (hliterals : e.literals = e'.literals) : e = e' := by
  induction e generalizing e' with
  | condition c =>
    cases e' with
    | condition c' =>
      obtain ⟨property, comparator, literal⟩ := c
      obtain ⟨property', comparator', literal'⟩ := c'
      cases h
      cases hliterals
      rfl
    | negation e' => cases h
    | joined connective a' b' => cases h
  | negation e ih =>
    cases e' with
    | condition c' => cases h
    | negation e' =>
      rw [shape, shape, Expr.negation.injEq] at h
      rw [ih h hliterals]
    | joined connective a' b' => cases h
  | joined connective a b iha ihb =>
    cases e' with
    | condition c' => cases h
    | negation e' => cases h
    | joined connective' a' b' =>
      rw [shape, shape, Expr.joined.injEq] at h
      obtain ⟨rfl, ha, hb⟩ := h
      obtain ⟨hla, hlb⟩ := List.append_inj hliterals (literals_length_of_shape ha)
      rw [iha ha hla, ihb hb hlb]

end Expr

/-! ## Contents -/

/-- The literal that a token holds. -/
def TokenContent.literal? : TokenContent → Option Literal
  | .literal l => some l
  | _ => none

theorem Expr.contents_literals (e : Expr) : e.contents.filterMap TokenContent.literal? = e.literals := by
  induction e with
  | condition c => rfl
  | negation e ih => exact ih
  | joined connective a b iha ihb => rw [contents, List.filterMap_append, iha, literals, ← ihb]; rfl

theorem Term.tree_contents (t : Term) : t.tree.contents = t.contents := by
  obtain ⟨isNegated, c⟩ := t
  cases isNegated with
  | true => rfl
  | false => rfl

theorem Links.tree_contents (links : Links) (first : Expr) :
    (links.tree first).contents = first.contents ++ links.contents := by
  induction links generalizing first with
  | nil => exact (List.append_nil _).symm
  | cons link links ih =>
    obtain ⟨connective, t⟩ := link
    show (Links.tree links (.joined connective first t.tree)).contents = _
    rw [ih, Expr.contents, t.tree_contents, List.append_assoc]
    rfl

theorem Chain.tree_contents (c : Chain) : c.tree.contents = c.contents := by
  rw [tree, Links.tree_contents, Term.tree_contents, contents]

theorem contents_of_parse {clause : Text} {found : List Token} {c : Clause} (hfound : tokens clause = .ok found)
    (h : parse clause = .ok c) : c.root.contents = found.map Token.content := by
  obtain ⟨chain, hreads, rfl⟩ := (parse_eq_ok_iff hfound).mp h
  rw [chain.tree_contents, hreads.contents]

/-! ## Other texts in the literals -/

/-- The same, or both the literal of a text. -/
def TokenContent.Alike (k k' : TokenContent) : Prop :=
  k = k' ∨ ∃ t t', k = .literal (.text t) ∧ k' = .literal (.text t')

theorem TokenContent.Alike.eq {k k' : TokenContent} (h : k.Alike k') (hk : ∀ l, k ≠ .literal l) : k = k' := by
  rcases h with h | ⟨t, -, rfl, -⟩
  · exact h
  · exact absurd rfl (hk _)

theorem Condition.exists_alike {c : Condition} {ks : List TokenContent}
    (h : List.Forall₂ TokenContent.Alike c.contents ks) : ∃ c' : Condition, c'.contents = ks ∧
      (Expr.condition c').shape = (Expr.condition c).shape ∧ (c.IsComparable → c'.IsComparable) := by
  obtain ⟨property, comparator, literal⟩ := c
  obtain ⟨a, as, hproperty, has, rfl⟩ := List.forall₂_cons_left_iff.mp h
  obtain ⟨b, bs, hcomparator, hbs, rfl⟩ := List.forall₂_cons_left_iff.mp has
  obtain ⟨l, ls, hliteral, hls, rfl⟩ := List.forall₂_cons_left_iff.mp hbs
  rw [List.forall₂_nil_left_iff] at hls
  subst hls
  rw [← hproperty.eq fun l => TokenContent.noConfusion, ← hcomparator.eq fun l => TokenContent.noConfusion]
  rcases hliteral with rfl | ⟨t, t', ht, rfl⟩
  · exact ⟨⟨property, comparator, literal⟩, rfl, rfl, id⟩
  · cases ht
    exact ⟨⟨property, comparator, .text t'⟩, rfl, rfl, id⟩

theorem Term.exists_alike {t : Term} {ks : List TokenContent} (h : List.Forall₂ TokenContent.Alike t.contents ks) :
    ∃ t' : Term, t'.contents = ks ∧ t'.tree.shape = t.tree.shape ∧
      (t.condition.IsComparable → t'.condition.IsComparable) := by
  obtain ⟨isNegated, c⟩ := t
  cases isNegated with
  | true =>
    obtain ⟨k, own, hnegation, hown, rfl⟩ := List.forall₂_cons_left_iff.mp h
    obtain ⟨c', rfl, hshape, hcomparable⟩ := Condition.exists_alike hown
    rw [← hnegation.eq fun l => TokenContent.noConfusion]
    exact ⟨⟨true, c'⟩, rfl, congrArg Expr.negation hshape, hcomparable⟩
  | false =>
    obtain ⟨c', rfl, hshape, hcomparable⟩ := Condition.exists_alike h
    exact ⟨⟨false, c'⟩, rfl, hshape, hcomparable⟩

theorem exists_of_forall₂_append {α β : Type} {R : α → β → Prop} {a a' : List α} {b : List β}
    (h : List.Forall₂ R (a ++ a') b) : ∃ l l', b = l ++ l' ∧ List.Forall₂ R a l ∧ List.Forall₂ R a' l' :=
  ⟨b.take a.length, b.drop a.length, (List.take_append_drop _ _).symm,
    (List.forall₂_take_append b a a' h.flip).flip, (List.forall₂_drop_append b a a' h.flip).flip⟩

theorem Links.exists_alike {links : Links} {ks : List TokenContent}
    (h : List.Forall₂ TokenContent.Alike links.contents ks) : ∃ links' : Links, links'.contents = ks ∧
      (∀ first first' : Expr, first'.shape = first.shape → (links'.tree first').shape = (links.tree first).shape) ∧
      ((∀ link ∈ links, link.2.condition.IsComparable) → ∀ link ∈ links', link.2.condition.IsComparable) := by
  induction links generalizing ks with
  | nil =>
    rw [contents, List.flatMap_nil, List.forall₂_nil_left_iff] at h
    subst h
    exact ⟨[], rfl, fun first first' hfirst => hfirst, fun hall => hall⟩
  | cons link links ih =>
    obtain ⟨connective, t⟩ := link
    obtain ⟨k, behind, hconnective, hbehind, rfl⟩ := List.forall₂_cons_left_iff.mp h
    obtain ⟨own, rest, rfl, hown, hrest⟩ := exists_of_forall₂_append hbehind
    obtain ⟨t', rfl, hshape, hcomparable⟩ := Term.exists_alike hown
    obtain ⟨links', rfl, hshapes, hall⟩ := ih hrest
    rw [← hconnective.eq fun l => TokenContent.noConfusion]
    refine ⟨(connective, t') :: links', rfl, fun first first' hfirst => ?_, fun h => ?_⟩
    · refine hshapes (.joined connective first t.tree) (.joined connective first' t'.tree) ?_
      rw [Expr.shape, Expr.shape, hfirst, hshape]
    · obtain ⟨hfirst, hlinks⟩ := List.forall_mem_cons.mp h
      exact List.forall_mem_cons.mpr ⟨hcomparable hfirst, hall hlinks⟩

theorem Chain.exists_alike {c : Chain} {ks : List TokenContent} (h : List.Forall₂ TokenContent.Alike c.contents ks) :
    ∃ c' : Chain, c'.contents = ks ∧ c'.tree.shape = c.tree.shape ∧
      ((∀ t ∈ c.terms, t.condition.IsComparable) → ∀ t ∈ c'.terms, t.condition.IsComparable) := by
  obtain ⟨first, links⟩ := c
  obtain ⟨own, rest, rfl, hown, hrest⟩ := exists_of_forall₂_append h
  obtain ⟨first', rfl, hshape, hfirst⟩ := Term.exists_alike hown
  obtain ⟨links', rfl, hshapes, hlinks⟩ := Links.exists_alike hrest
  refine ⟨⟨first', links'⟩, rfl, hshapes _ _ hshape, fun hall => ?_⟩
  rw [forall_terms_iff] at hall ⊢
  exact ⟨hfirst hall.1, hlinks hall.2⟩

/-- With other texts in its literals a clause is read as a tree of the same shape. -/
theorem parse_alike {clause : Text} {found : List Token} {c : Clause} (hfound : tokens clause = .ok found)
    (h : parse clause = .ok c) {ks : List TokenContent}
    (halike : List.Forall₂ TokenContent.Alike (found.map Token.content) ks) :
    ∃ root : Expr, root.shape = c.root.shape ∧ root.contents = ks ∧
      ∀ clause' found', tokens clause' = .ok found' → found'.map Token.content = ks →
        parse clause' = .ok ⟨clause', root⟩ := by
  obtain ⟨chain, hreads, rfl⟩ := (parse_eq_ok_iff hfound).mp h
  rw [hreads.contents] at halike
  obtain ⟨chain', rfl, hshape, hcomparable⟩ := Chain.exists_alike halike
  refine ⟨chain'.tree, hshape, chain'.tree_contents, fun clause' found' hfound' hcontents => ?_⟩
  exact (parse_eq_ok_iff hfound').mpr ⟨chain', ⟨hcontents, hcomparable hreads.comparable⟩, rfl⟩

end Errand.Where
