/-
  Errand.Proofs.Grammar.Language — what rules mean, read off them as they are
  written.

  Each alternative is cut at its groups (`CutAt`): a group is a balanced text in round
  brackets, its opening one behind no backslash; a bracket that is never closed leaves
  the rest as plain text. Between the groups stand characters and nonterminals, and a
  nonterminal goes as far as it can. The strings of an alternative come from one choice
  for each nonterminal and each group in it (`Derives`); how deep choices stand one inside
  the other is counted.

  A derivation is written for any kind of parts and any choices, so that rules with
  groups and rules without can be compared: if the parts of two texts stand for one
  another and offer the same choices, the texts have the same strings
  (`Derives.transfer`).

  `cutAt_iff`: the cut that expansion makes is the one at the balanced groups.
-/

import Errand.Grammar.Expansion
import Errand.Grammar.Sentence
import Errand.Proofs.Text.Balance
import Mathlib.Data.List.Forall2

namespace Errand

/-! ## Groups -/

/-- A text is cut at its groups. -/
inductive CutAt : Text → Cut → Prop
  | nil : CutAt [] ⟨[], []⟩
  | escaped {c : CodePoint} {t : Text} {k : Cut} : CutAt t k →
      CutAt (.char '\\' :: c :: t) ((k.cons c).cons '\\')
  | group {inside after : Text} {k : Cut} : Bracket.Balanced .round inside → CutAt after k →
      CutAt (.char '(' :: (inside ++ .char ')' :: after)) (k.group inside)
  | unclosed {t : Text} :
      (∀ inside after, Bracket.Balanced .round inside → t ≠ inside ++ .char ')' :: after) →
      CutAt (.char '(' :: t) ⟨.char '(' :: t, []⟩
  | plain {c : CodePoint} {t : Text} {k : Cut} : c ≠ .char '(' → (c = .char '\\' → t = []) →
      CutAt t k → CutAt (c :: t) (k.cons c)

theorem closing?_round_iff {t inside after : Text} : Bracket.closing? .round t = some (inside, after) ↔
    Bracket.Balanced .round inside ∧ t = inside ++ .char ')' :: after :=
  Bracket.closing?_eq_some_iff Bracket.Pair.round_proper

theorem cutAt_ofText (t : Text) : CutAt t (Cut.ofText t) := by
  fun_induction Cut.ofText t with
  | case1 => exact .nil
  | case2 c rest ih => exact .escaped ih
  | case3 rest inside after h ih =>
    obtain ⟨hb, rfl⟩ := closing?_round_iff.mp h
    exact .group hb ih
  | case4 rest h =>
    refine .unclosed fun inside after hb e => ?_
    rw [closing?_round_iff.mpr ⟨hb, e⟩] at h
    cases h
  | case5 c rest h₁ h₂ ih =>
    refine .plain h₂ (fun e => ?_) ih
    cases rest with
    | nil => rfl
    | cons d more => exact absurd rfl (h₁ d more e)

theorem Cut.ofText_group {rest inside after : Text} (h : Bracket.closing? .round rest = some (inside, after)) :
    ofText (.char '(' :: rest) = (ofText after).group inside := by
  rw [ofText]
  split
  · rename_i h'
    rw [h] at h'
    cases h'
    rfl
  · rename_i h'
    rw [h] at h'
    cases h'

theorem Cut.ofText_unclosed {rest : Text} (h : Bracket.closing? .round rest = none) :
    ofText (.char '(' :: rest) = ⟨.char '(' :: rest, []⟩ := by
  rw [ofText]
  split
  · rename_i h'
    rw [h] at h'
    cases h'
  · rfl

theorem CutAt.eq_ofText {t : Text} {k : Cut} (h : CutAt t k) : Cut.ofText t = k := by
  induction h with
  | nil => rw [Cut.ofText]
  | escaped _ ih => rw [Cut.ofText, ih]
  | group hb _ ih => rw [Cut.ofText_group (closing?_round_iff.mpr ⟨hb, rfl⟩), ih]
  | @unclosed t hn =>
    refine Cut.ofText_unclosed (Option.eq_none_iff_forall_ne_some.mpr ?_)
    rintro ⟨inside, after⟩ h
    obtain ⟨hb, e⟩ := closing?_round_iff.mp h
    exact hn inside after hb e
  | plain h₁ h₂ _ ih =>
    rw [Cut.ofText, ih]
    · intro d more e e'
      rw [h₂ e] at e'
      cases e'
    · exact h₁

/-- Expansion cuts a text at its balanced groups, and there is no other way to do it. -/
theorem cutAt_iff {t : Text} {k : Cut} : CutAt t k ↔ Cut.ofText t = k :=
  ⟨CutAt.eq_ofText, fun h => h ▸ cutAt_ofText t⟩

/-! ## Parts -/

/-- What an alternative consists of. -/
inductive Part where
  | terminal (c : CodePoint)
  | nonterminal (name : Text)
  | group (inside : Text)

def Symbol.part : Symbol → Part
  | .terminal c => .terminal c
  | .nonterminal name => .nonterminal name

namespace Cut

/-- The parts of groups and the pieces of text behind them. Nonterminals are read in
    each piece on its own. -/
def groupParts (groups : List (Text × Text)) : List Part :=
  groups.flatMap fun (inside, after) => .group inside :: (symbols after).map Symbol.part

/-- The parts of a text cut at its groups. -/
def parts (k : Cut) : List Part := (symbols k.first).map Symbol.part ++ groupParts k.groups

end Cut

/-! ## Derivations -/

/-- The string that parts become by choices no more than `nesting` deep, if `letter?` says
    which of them stand for themselves and `offers` what the others may become. -/
inductive Derives {α : Type} (letter? : α → Option CodePoint) (offers : α → List α → Prop) :
    (nesting : Nat) → List α → Text → Prop
  | done {n : Nat} : Derives letter? offers n [] []
  | letter {n : Nat} {x : α} {c : CodePoint} {rest : List α} {w : Text} : letter? x = some c →
      Derives letter? offers n rest w → Derives letter? offers n (x :: rest) (c :: w)
  | choice {n : Nat} {x : α} {chosen rest : List α} {v w : Text} : offers x chosen →
      Derives letter? offers n chosen v → Derives letter? offers (n + 1) rest w →
      Derives letter? offers (n + 1) (x :: rest) (v ++ w)

/-- Parts that stand for others have their strings, if they are the same characters or
    offer what stands for all that the others offer. -/
theorem Derives.transfer {α β : Type} {letterα : α → Option CodePoint} {offersα : α → List α → Prop}
    {letterβ : β → Option CodePoint} {offersβ : β → List β → Prop} {R : α → β → Prop}
    (hl : ∀ x y c, R x y → letterα x = some c → letterβ y = some c)
    (ho : ∀ x y a, R x y → offersα x a → ∃ b, offersβ y b ∧ List.Forall₂ R a b)
    {n : Nat} {xs : List α} {w : Text} (h : Derives letterα offersα n xs w) {ys : List β}
    (hr : List.Forall₂ R xs ys) : Derives letterβ offersβ n ys w := by
  induction h generalizing ys with
  | done =>
    cases hr
    exact .done
  | letter hx _ ih =>
    cases hr with
    | cons hxy hrest => exact .letter (hl _ _ _ hxy hx) (ih hrest)
  | choice hx _ _ ih₁ ih₂ =>
    cases hr with
    | cons hxy hrest =>
      obtain ⟨b, hb, hab⟩ := ho _ _ _ hxy hx
      exact .choice hb (ih₁ hab) (ih₂ hrest)

/-! ## The language of rules with groups -/

namespace Rules

/-- The alternatives of a nonterminal, only the empty one if no rule gives any. -/
def alternativesFor (rules : Rules) (name : Text) : List Text :=
  match (rules.find? name).map (·.alternatives) with
  | some (first :: more) => first :: more
  | _ => [[]]

/-- The texts that may stand for a part. -/
def alternativesOf (rules : Rules) : Part → List Text
  | .terminal _ => []
  | .nonterminal name => rules.alternativesFor name
  | .group inside => alternativesIn inside

/-- Parts that may stand for a part: those of one of its alternatives. -/
def Offers (rules : Rules) (x : Part) (ps : List Part) : Prop :=
  ∃ a ∈ rules.alternativesOf x, ∃ k, CutAt a k ∧ ps = k.parts

end Rules

/-- The character that a part is. -/
def Part.letter? : Part → Option CodePoint
  | .terminal c => some c
  | .nonterminal _ | .group _ => none

/-- The strings of a nonterminal whose derivations have at most `nesting` nonterminals
    and groups one inside the other below its alternative. -/
def Rules.Language (rules : Rules) (name : Text) (nesting : Nat) (w : Text) : Prop :=
  Derives Part.letter? rules.Offers (nesting + 1) [.nonterminal name] w

end Errand
