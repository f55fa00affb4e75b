/-
  Errand.Proofs.Text.Balance — which brackets belong together.

  A text is balanced when its brackets form pairs, one inside the other or one after
  the other; a character behind a backslash is no bracket (`Balanced`). The bracket
  that `closing?` finds for an open pair is the one with a balanced text in front of
  it, and there is only one such bracket (`closing?_eq_some_iff`).
-/

import Errand.Text.Bracket

namespace Errand.Bracket

/-- Two different characters, and none of them is the backslash. -/
structure Pair.Proper (p : Pair) : Prop where
  opening_ne : p.opening ≠ .char '\\'
  closing_ne : p.closing ≠ .char '\\'
  distinct : p.closing ≠ p.opening

theorem Pair.round_proper : Pair.round.Proper := ⟨by decide, by decide, by decide⟩

theorem Pair.curly_proper : Pair.curly.Proper := ⟨by decide, by decide, by decide⟩

inductive Balanced (p : Pair) : Text → Prop
  | nil : Balanced p []
  | escaped {c : CodePoint} {t : Text} : Balanced p t → Balanced p (.char '\\' :: c :: t)
  | plain {c : CodePoint} {t : Text} : c ≠ .char '\\' → c ≠ p.opening → c ≠ p.closing →
      Balanced p t → Balanced p (c :: t)
  | pair {inside t : Text} : Balanced p inside → Balanced p t →
      Balanced p (p.opening :: (inside ++ p.closing :: t))

/-! ## The loop, one character at a time -/

section
variable {p : Pair}

/-- A text in front of what is found inside the brackets. -/
def inFront (front : Text) (found : Option (Text × Text)) : Option (Text × Text) :=
  found.map fun (inside, after) => (front ++ inside, after)

theorem inFront_inFront (s t : Text) (found : Option (Text × Text)) :
    inFront s (inFront t found) = inFront (s ++ t) found := by
  simp [inFront, Function.comp_def, List.append_assoc]

theorem closingFrom_escaped (depth : Nat) (c : CodePoint) (t : Text) :
    closingFrom p depth (.char '\\' :: c :: t) = inFront [.char '\\', c] (closingFrom p depth t) := by
  rw [closingFrom]
  rfl

theorem closingFrom_cons {c : CodePoint} (hc : c ≠ .char '\\') (depth : Nat) (t : Text) :
    closingFrom p depth (c :: t) =
      if c = p.opening then inFront [c] (closingFrom p (depth + 1) t)
      else if c = p.closing then
        match depth with
        | 0 => some ([], t)
        | outer + 1 => inFront [c] (closingFrom p outer t)
      else inFront [c] (closingFrom p depth t) := by
  rw [closingFrom.eq_def]
  split
  · rename_i h; cases h
  · rename_i h; cases h; exact absurd rfl hc
  · rename_i h; cases h; exact absurd rfl hc
  · rename_i h; cases h; rfl

/-- A balanced text is passed over. -/
theorem closingFrom_balanced (hp : p.Proper) {b : Text} (hb : Balanced p b) (depth : Nat) (t : Text) :
    closingFrom p depth (b ++ t) = inFront b (closingFrom p depth t) := by
  induction hb generalizing depth t with
  | nil => simp [inFront]
  | escaped _ ih =>
    rw [List.cons_append, List.cons_append, closingFrom_escaped, ih, inFront_inFront]
    rfl
  | plain h₁ h₂ h₃ _ ih =>
    rw [List.cons_append, closingFrom_cons h₁, if_neg h₂, if_neg h₃, ih, inFront_inFront]
    rfl
  | @pair inside rest _ _ ih₁ ih₂ =>
    have hcl := closingFrom_cons (p := p) hp.closing_ne (depth + 1) (rest ++ t)
    rw [if_neg hp.distinct, if_pos rfl] at hcl
    rw [List.cons_append, closingFrom_cons hp.opening_ne, if_pos rfl, List.append_assoc,
      List.cons_append, ih₁, hcl]
    simp [ih₂, inFront_inFront]

/-! ## What is found is balanced -/

/-- A text that closes some pairs opened before it, all but its last part balanced. -/
inductive Closes (p : Pair) : Nat → Text → Prop
  | balanced {b : Text} : Balanced p b → Closes p 0 b
  | closing {depth : Nat} {b t : Text} : Balanced p b → Closes p depth t →
      Closes p (depth + 1) (b ++ p.closing :: t)

theorem Closes.escaped {depth : Nat} {t : Text} (c : CodePoint) (h : Closes p depth t) :
    Closes p depth (.char '\\' :: c :: t) := by
  cases h with
  | balanced hb => exact .balanced hb.escaped
  | closing hb ht => exact .closing hb.escaped ht

theorem Closes.plain {depth : Nat} {c : CodePoint} {t : Text} (h₁ : c ≠ .char '\\') (h₂ : c ≠ p.opening)
    (h₃ : c ≠ p.closing) (h : Closes p depth t) : Closes p depth (c :: t) := by
  cases h with
  | balanced hb => exact .balanced (hb.plain h₁ h₂ h₃)
  | closing hb ht => exact .closing (hb.plain h₁ h₂ h₃) ht

/-- An opening bracket in front takes the first of the closing ones for itself. -/
theorem Closes.opening {depth : Nat} {t : Text} (h : Closes p (depth + 1) t) :
    Closes p depth (p.opening :: t) := by
  cases h with
  | @closing _ b rest hb ht =>
    cases ht with
    | balanced hr => exact .balanced (.pair hb hr)
    | @closing _ b' rest' hb' ht =>
      have := Closes.closing (.pair hb hb') ht
      simpa using this

theorem closes_of_closingFrom {depth : Nat} {t inside after : Text}
    (h : closingFrom p depth t = some (inside, after)) : Closes p depth inside := by
  fun_induction closingFrom p depth t generalizing inside after with
  | case1 => cases h
  | case2 => cases h
  | case3 depth c rest ih =>
    obtain ⟨⟨a, b⟩, hr, he⟩ := Option.map_eq_some_iff.1 h
    obtain ⟨rfl, rfl⟩ := Prod.mk.inj he
    exact (ih hr).escaped c
  | case4 depth rest _ _ ih =>
    obtain ⟨⟨a, b⟩, hr, he⟩ := Option.map_eq_some_iff.1 h
    obtain ⟨rfl, rfl⟩ := Prod.mk.inj he
    exact (ih hr).opening
  | case5 c rest =>
    obtain ⟨rfl, rfl⟩ := Prod.mk.inj (Option.some.inj h)
    exact .balanced .nil
  | case6 rest _ _ _ outer ih =>
    obtain ⟨⟨a, b⟩, hr, he⟩ := Option.map_eq_some_iff.1 h
    obtain ⟨rfl, rfl⟩ := Prod.mk.inj he
    exact .closing .nil (ih hr)
  | case7 depth c rest h₁ h₄ h₂ h₃ ih =>
    obtain ⟨⟨a, b⟩, hr, he⟩ := Option.map_eq_some_iff.1 h
    obtain ⟨rfl, rfl⟩ := Prod.mk.inj he
    -- a backslash with something behind it is an escape, and behind the last one nothing closes
    have hc : c ≠ .char '\\' := by
      intro e
      cases rest with
      | nil => exact h₁ e rfl
      | cons d more => exact h₄ d more e rfl
    exact (ih hr).plain hc h₂ h₃

/-- The bracket that ends an open pair is the one behind a balanced text. -/
theorem closing?_eq_some_iff (hp : p.Proper) {t inside after : Text} :
    closing? p t = some (inside, after) ↔ Balanced p inside ∧ t = inside ++ p.closing :: after := by
  constructor
  · intro h
    refine ⟨?_, closing?_eq h⟩
    cases closes_of_closingFrom h with
    | balanced hb => exact hb
  · rintro ⟨hb, rfl⟩
    have hcl := closingFrom_cons (p := p) hp.closing_ne 0 after
    rw [if_neg hp.distinct, if_pos rfl] at hcl
    rw [closing?, closingFrom_balanced hp hb, hcl]
    simp [inFront]

end

end Errand.Bracket
