/-
  Errand.Proofs.Where.Folding — what a clause comes to, term by term.

  No connective binds closer than another. If each condition of a clause can be tested, the
  clause comes to what its terms come to, folded from left to right under the connectives
  between them, and not turns the one condition behind it (`Chain.value`). This holds of
  clauses of any length; that and and or may leave their second side alone makes no
  difference then.

  Joining clauses leaves the fold of each one as it is: the joined clause comes to true
  exactly if each of them does on its own (`conjunction_folds`).
-/

import Errand.Proofs.Where.Chains
import Errand.Proofs.Where.Conjunction

namespace Errand.Where

/-! ## Truth values -/

/-- What a connective makes of the truth values on its sides. One that no clause can be
    written with makes nothing of them. -/
def Connective.apply : Connective → Bool → Bool → Bool
  | .and, a, b => a && b
  | .or, a, b => a || b
  | .xor, a, b => a != b
  | .other _, _, _ => false

section
variable (lookup : Option Lookup)

def Condition.value (c : Condition) : Bool := decide ((Expr.condition c).holds lookup = .ok true)

def Term.value (t : Term) : Bool :=
  if t.isNegated then !t.condition.value lookup else t.condition.value lookup

/-- The truth values of the terms, folded from left to right. -/
def Chain.value (c : Chain) : Bool :=
  c.links.foldl (fun v (connective, t) => connective.apply v (t.value lookup)) (c.first.value lookup)

/-- The conditions of a tree from left to right. -/
def Expr.conditions : Expr → List Condition
  | .condition c => [c]
  | .negation e => e.conditions
  | .joined _ a b => a.conditions ++ b.conditions

/-- No condition of a tree comes to a fault. -/
def Expr.IsTestable (e : Expr) : Prop := ∀ c ∈ e.conditions, ∃ b, (Expr.condition c).holds lookup = .ok b

end

/-! ## Trees -/

variable {lookup : Option Lookup}

theorem Expr.isTestable_of_all {e : Expr} (h : e.conditions.all (fun c => ((condition c).holds lookup).isOk) = true) :
    e.IsTestable lookup := by
  intro c hc
  have hok := List.all_eq_true.mp h c hc
  rcases hb : (condition c).holds lookup with f | b
  · rw [hb] at hok
    cases hok
  · exact ⟨b, rfl⟩

theorem Expr.joined_holds {connective : Connective} (hproper : connective.IsProper) {a b : Expr} {x y : Bool}
    (ha : a.holds lookup = .ok x) (hb : b.holds lookup = .ok y) :
    (joined connective a b).holds lookup = .ok (connective.apply x y) := by
  cases connective with
  | other word => exact absurd rfl (hproper word)
  | and =>
    rw [holds, ha]
    cases x with
    | true => exact hb
    | false => rfl
  | or =>
    rw [holds, ha]
    cases x with
    | true => rfl
    | false => exact hb
  | xor =>
    rw [holds, ha, hb]
    rfl

/-- Sides that are joined to a tree one by one are folded in the same order. -/
theorem foldl_joined_holds {α : Type} (connective : α → Connective) {side : α → Expr} {value : α → Bool} {l : List α}
    (hl : ∀ x ∈ l, (connective x).IsProper ∧ (side x).holds lookup = .ok (value x)) {first : Expr} {v : Bool}
    (hfirst : first.holds lookup = .ok v) :
    (l.foldl (fun tree x => .joined (connective x) tree (side x)) first).holds lookup =
      .ok (l.foldl (fun v x => (connective x).apply v (value x)) v) := by
  induction l generalizing first v with
  | nil => exact hfirst
  | cons x l ih =>
    obtain ⟨⟨hproper, hside⟩, hl⟩ := List.forall_mem_cons.mp hl
    exact ih hl (Expr.joined_holds hproper hfirst hside)

theorem Condition.holds_eq {c : Condition} (h : ∃ b, (Expr.condition c).holds lookup = .ok b) :
    (Expr.condition c).holds lookup = .ok (c.value lookup) := by
  obtain ⟨b, hb⟩ := h
  rw [value, hb]
  cases b <;> rfl

theorem Term.holds_eq {t : Term} (h : ∃ b, (Expr.condition t.condition).holds lookup = .ok b) :
    t.tree.holds lookup = .ok (t.value lookup) := by
  have hcondition := Condition.holds_eq h
  obtain ⟨isNegated, c⟩ := t
  cases isNegated with
  | true =>
    show ((Expr.condition c).holds lookup).map _ = _
    rw [hcondition]
    rfl
  | false => exact hcondition

theorem Term.tree_conditions (t : Term) : t.tree.conditions = [t.condition] := by
  obtain ⟨isNegated, c⟩ := t
  cases isNegated with
  | true => rfl
  | false => rfl

theorem Links.tree_conditions (links : Links) (first : Expr) :
    (links.tree first).conditions = first.conditions ++ links.map (·.2.condition) := by
  induction links generalizing first with
  | nil => exact (List.append_nil _).symm
  | cons link links ih =>
    obtain ⟨connective, t⟩ := link
    show (Links.tree links (.joined connective first t.tree)).conditions = _
    rw [ih, Expr.conditions, t.tree_conditions, List.append_assoc]
    rfl

theorem Chain.tree_conditions (c : Chain) : c.tree.conditions = c.terms.map Term.condition := by
  rw [tree, Links.tree_conditions, Term.tree_conditions, terms, List.map_cons, List.map_map]
  rfl

theorem Chain.holds_eq {c : Chain} (hproper : ∀ link ∈ c.links, link.1.IsProper) (h : c.tree.IsTestable lookup) :
    c.tree.holds lookup = .ok (c.value lookup) := by
  rw [Expr.IsTestable, tree_conditions, List.forall_mem_map, forall_terms_iff] at h
  exact foldl_joined_holds Prod.fst (fun link hlink => ⟨hproper link hlink, Term.holds_eq (h.2 link hlink)⟩)
    (Term.holds_eq h.1)

/-! ## Clauses -/

/-- The connectives of a chain that was read are those that clauses are written with. -/
theorem Chain.Reads.connectives_proper {clause : Text} {found : List Token} (hfound : tokens clause = .ok found)
    {c : Chain} (h : c.Reads found) : ∀ link ∈ c.links, link.1.IsProper := by
  intro link hlink
  have hmem : .connective link.1 ∈ c.contents :=
    List.mem_append_right _ (List.mem_flatMap.mpr ⟨link, hlink, List.mem_cons_self⟩)
  rw [← h.contents] at hmem
  obtain ⟨k, hk, hcontent⟩ := List.mem_map.mp hmem
  have hproper := tokens_proper hfound k hk
  rwa [hcontent] at hproper

theorem holds_of_chain {c : Clause} (hc : parse c.text = .ok c) (h : c.root.IsTestable lookup) :
    ∃ found chain, tokens c.text = .ok found ∧ Chain.Reads chain found ∧ c.holds lookup = .ok (chain.value lookup) := by
  obtain ⟨found, chain, hfound, hreads, he⟩ := chain_of_parse hc
  have hroot : c.root = chain.tree := congrArg Clause.root he
  refine ⟨found, chain, hfound, hreads, ?_⟩
  rw [Clause.holds, hroot]
  rw [hroot] at h
  exact chain.holds_eq (hreads.connectives_proper hfound) h

/-- If each of some clauses comes to a truth value, so do they when they are joined, and to true
    exactly if each one does. -/
theorem conjunction_holds_eq {cs : List Clause} {joined : Clause} (h : conjunction cs = some joined)
    (hends : ∀ c ∈ cs, ∃ b, c.holds lookup = .ok b) :
    joined.holds lookup = .ok (decide (∀ c ∈ cs, c.holds lookup = .ok true)) := by
  have hends' : ∀ c ∈ cs, c.holds lookup = .ok (decide (c.holds lookup = .ok true)) := by
    intro c hc
    obtain ⟨b, hb⟩ := hends c hc
    rw [hb]
    cases b <;> rfl
  obtain ⟨b, hb⟩ : ∃ b, joined.holds lookup = .ok b := by
    cases cs with
    | nil => cases h
    | cons first more =>
      cases h
      obtain ⟨hfirst, hmore⟩ := List.forall_mem_cons.mp hends'
      exact ⟨_, foldl_joined_holds (fun _ => .and) (fun c hc => ⟨fun _ => Connective.noConfusion, hmore c hc⟩) hfirst⟩
  have hiff : joined.holds lookup = .ok true ↔ _ := conjunction_holds_iff h
  rw [hb] at hiff ⊢
  rw [Except.ok.injEq] at hiff ⊢
  rw [Bool.eq_iff_iff, decide_eq_true_iff]
  exact hiff

theorem text_of_parse {t : Text} {c : Clause} (h : parse t = .ok c) : c.text = t := by
  obtain ⟨_, _, -, -, rfl⟩ := chain_of_parse h
  rfl

/-- Clauses that are joined come to true exactly if each one does on its own, and each one comes
    to the fold of its own terms, whatever connectives are in the others. -/
theorem conjunction_folds {cs : List Clause} (hne : cs ≠ []) (hparsed : ∀ c ∈ cs, parse c.text = .ok c)
    (lookup : Option Lookup) (htestable : ∀ c ∈ cs, c.root.IsTestable lookup) :
    (∃ joined, conjunction cs = some joined ∧
      joined.holds lookup = .ok (decide (∀ c ∈ cs, c.holds lookup = .ok true))) ∧
    ∀ c ∈ cs, ∃ found chain, tokens c.text = .ok found ∧ Chain.Reads chain found ∧
      c.holds lookup = .ok (chain.value lookup) := by
  have hfolds := fun c hc => holds_of_chain (hparsed c hc) (htestable c hc)
  refine ⟨?_, hfolds⟩
  have hsome : ∃ joined, conjunction cs = some joined := by
    obtain ⟨first, more, rfl⟩ := List.exists_cons_of_ne_nil hne
    exact ⟨_, rfl⟩
  obtain ⟨joined, hjoined⟩ := hsome
  refine ⟨joined, hjoined, conjunction_holds_eq hjoined fun c hc => ?_⟩
  obtain ⟨_, chain, _, _, hvalue⟩ := hfolds c hc
  exact ⟨_, hvalue⟩

/-- A cup without a lid. -/
def cupLookup : Lookup := fun name =>
  if name = "kind".text then .value (.text "cup".text)
  else if name = "reach".text then .value (.int 1)
  else .missing

/-- A cup that could also be clean, with a lid in both cases. -/
def lidded : Text := "kind = 'cup' or clean = true and lid = true".text

/-- Joined in one line, this would decide for the other clause too. -/
def near : Text := "not reach >= 1 or kind = 'CUP'".text

theorem conjunction_folds_lidded : ∃ first second joined, parse lidded = .ok first ∧ parse near = .ok second ∧
    (∀ c ∈ [first, second], parse c.text = .ok c) ∧ (∀ c ∈ [first, second], c.root.IsTestable (some cupLookup)) ∧
    conjunction [first, second] = some joined ∧ first.holds (some cupLookup) = .ok false ∧
    second.holds (some cupLookup) = .ok true ∧ joined.holds (some cupLookup) = .ok false := by
  let view (c : Clause) := (c.holds (some cupLookup),
    c.root.conditions.all fun x => ((Expr.condition x).holds (some cupLookup)).isOk)
  have hview : (parse lidded).toOption.map view = some (.ok false, true) ∧
      (parse near).toOption.map view = some (.ok true, true) := by decide +kernel
  obtain ⟨first, hfirst, hf⟩ := exists_of_toOption hview.1
  obtain ⟨second, hsecond, hs⟩ := exists_of_toOption hview.2
  obtain ⟨hfirstHolds, hfirstOk⟩ := Prod.mk.inj hf
  obtain ⟨hsecondHolds, hsecondOk⟩ := Prod.mk.inj hs
  have hparsed : ∀ c ∈ [first, second], parse c.text = .ok c := by
    simp only [List.forall_mem_cons, List.not_mem_nil, false_imp_iff, implies_true, and_true, text_of_parse hfirst,
      text_of_parse hsecond]
    exact ⟨hfirst, hsecond⟩
  have htestable : ∀ c ∈ [first, second], c.root.IsTestable (some cupLookup) := by
    simp only [List.forall_mem_cons, List.not_mem_nil, false_imp_iff, implies_true, and_true]
    exact ⟨Expr.isTestable_of_all hfirstOk, Expr.isTestable_of_all hsecondOk⟩
  obtain ⟨⟨joined, hjoined, hholds⟩, -⟩ := conjunction_folds (List.cons_ne_nil _ _) hparsed (some cupLookup) htestable
  refine ⟨first, second, joined, hfirst, hsecond, hparsed, htestable, hjoined, hfirstHolds, hsecondHolds, ?_⟩
  rw [hholds, decide_eq_false]
  intro hall
  rw [hall first List.mem_cons_self] at hfirstHolds
  cases hfirstHolds

end Errand.Where
