/-
  Errand.Proofs.Grammar.Drawing — the sentences that can be drawn from rules.

  Drawing takes one alternative for each nonterminal, and nothing else is left to
  choice. So what can be drawn are the strings that the symbols of an alternative
  derive, within the same depth:
  - `derives_of_draw`: whatever the source of choices, a sentence that is drawn is
    derived.
  - `exists_draw`: each sentence that is derived is drawn with some choices written
    down before (`Script`).
-/

import Errand.Proofs.Run
import Errand.Proofs.Random.Script
import Errand.Proofs.Grammar.Language

namespace Errand

/-! ## Rules without groups -/

/-- The character that a symbol is. -/
def Symbol.letter? : Symbol → Option CodePoint
  | .terminal c => some c
  | .nonterminal _ => none

/-- Symbols that may be drawn for a symbol. -/
def Rules.Draws (rules : Rules) : Symbol → List Symbol → Prop
  | .terminal _, _ => False
  | .nonterminal name, drawn => ∃ a ∈ rules.alternativesFor name, drawn = symbols a

/-- Characters are drawn as they are. -/
theorem Rules.eq_of_derives {rules : Rules} {n : Nat} {t : Text} {w : Text}
    (h : Derives Symbol.letter? rules.Draws n (t.map .terminal) w) : w = t := by
  induction t generalizing w with
  | nil =>
    cases h
    rfl
  | cons c t ih =>
    cases h with
    | letter hc hw =>
      cases hc
      rw [ih hw]
    | choice hx _ _ => cases hx

namespace Sentence

section
variable {σ : Type} [RandomSource σ] {rules : Rules}

theorem pick_mem (name : Text) (s : σ) : (pick rules name s).1 ∈ rules.alternativesFor name := by
  rcases hf : (rules.find? name).map (·.alternatives) with _ | _ | ⟨first, more⟩
  · rw [pick, Rules.alternativesFor, hf]
    exact List.mem_singleton.mpr rfl
  · rw [pick, Rules.alternativesFor, hf]
    exact List.mem_singleton.mpr rfl
  · rw [pick, Rules.alternativesFor, hf]
    exact List.get_mem _ _

theorem run_pick (name : Text) (s : σ) : (modifyGet (pick rules name) : Draw σ Text).run s =
    (.ok (pick rules name s).1, (pick rules name s).2) := rfl

theorem expand_zero (t : Text) : (expand rules 0 t : Draw σ Text) =
    List.flatten <$> (symbols t).mapM (spelled fun _ => throw .tooDeep) := by
  rw [expand]
  rfl

/-- An alternative of a nonterminal, expanded. -/
def replacement (rules : Rules) (depth : Nat) (name : Text) : Draw σ Text := do
  let alternative ← modifyGet (pick rules name)
  expand rules depth alternative

theorem expand_succ (depth : Nat) (t : Text) : (expand rules (depth + 1) t : Draw σ Text) =
    List.flatten <$> (symbols t).mapM (spelled (replacement rules depth)) := by
  rw [expand]
  rfl

/-! ## What is drawn is derived -/

omit [RandomSource σ] in
/-- Symbols of which the nonterminals have become derived texts. -/
theorem derives_of_spelled {n : Nat} {f : Text → Draw σ Text}
    (hf : ∀ name s v s', (f name).run s = (.ok v, s') →
      ∃ m a, n = m + 1 ∧ a ∈ rules.alternativesFor name ∧ Derives Symbol.letter? rules.Draws m (symbols a) v)
    {xs : List Symbol} {s s' : σ} {vs : List Text} (h : (xs.mapM (spelled f)).run s = (.ok vs, s')) :
    Derives Symbol.letter? rules.Draws n xs vs.flatten := by
  induction xs generalizing s vs with
  | nil =>
    rw [List.mapM_nil, run_pure_eq_ok] at h
    obtain ⟨rfl, -⟩ := h
    exact .done
  | cons x xs ih =>
    simp only [List.mapM_cons, run_bind_eq_ok, run_pure_eq_ok] at h
    obtain ⟨v, s₁, hx, rest, s₂, hxs, rfl, rfl⟩ := h
    rw [List.flatten_cons]
    cases x with
    | terminal c =>
      obtain ⟨rfl, rfl⟩ := run_pure_eq_ok.mp hx
      exact .letter rfl (ih hxs)
    | nonterminal name =>
      obtain ⟨m, a, rfl, ha, hd⟩ := hf name s v s₁ hx
      exact .choice ⟨a, ha, rfl⟩ hd (ih hxs)

theorem derives_of_expand {depth : Nat} {t v : Text} {s s' : σ}
    (h : (expand rules depth t).run s = (.ok v, s')) :
    Derives Symbol.letter? rules.Draws depth (symbols t) v := by
  induction depth generalizing t v s s' with
  | zero =>
    rw [expand_zero, map_eq_pure_bind, run_bind_eq_ok] at h
    obtain ⟨vs, s₁, hm, hp⟩ := h
    obtain ⟨rfl, -⟩ := run_pure_eq_ok.mp hp
    exact derives_of_spelled (fun name s v s' hf => by cases hf) hm
  | succ depth ih =>
    rw [expand_succ, map_eq_pure_bind, run_bind_eq_ok] at h
    obtain ⟨vs, s₁, hm, hp⟩ := h
    obtain ⟨rfl, -⟩ := run_pure_eq_ok.mp hp
    refine derives_of_spelled (fun name s v s' hf => ?_) hm
    obtain ⟨a, t, ha, he⟩ := run_bind_eq_ok.mp hf
    have hmem : (pick rules name s).1 ∈ rules.alternativesFor name := pick_mem name s
    cases ha
    exact ⟨depth, _, rfl, hmem, ih he⟩

end

/-! ## What is derived can be drawn -/

theorem exists_pick {rules : Rules} {name a : Text} (h : a ∈ rules.alternativesFor name) :
    ∃ ks : List Nat, ∀ more, pick rules name (⟨ks ++ more⟩ : Script) = (a, ⟨more⟩) := by
  unfold Rules.alternativesFor at h
  rcases hf : (rules.find? name).map (·.alternatives) with _ | _ | ⟨first, rest⟩
  · rw [hf, List.mem_singleton] at h
    exact ⟨[], fun more => by rw [pick, hf, h]; rfl⟩
  · rw [hf, List.mem_singleton] at h
    exact ⟨[], fun more => by rw [pick, hf, h]; rfl⟩
  · rw [hf] at h
    obtain ⟨i, hi, rfl⟩ := List.getElem_of_mem h
    refine ⟨[i], fun more => ?_⟩
    rw [pick, hf]
    have hfin : Fin.ofNat (rest.length + 1) i = ⟨i, hi⟩ := Fin.ext (Nat.mod_eq_of_lt hi)
    show ((first :: rest).get ((Fin.ofNat (rest.length + 1) i).cast (by simp)), (⟨more⟩ : Script)) = _
    rw [hfin]
    rfl

theorem exists_spelled {rules : Rules} {n : Nat} {f : Text → Draw Script Text}
    (hf : ∀ m name a v, n = m + 1 → a ∈ rules.alternativesFor name →
      Derives Symbol.letter? rules.Draws m (symbols a) v →
      ∃ ks : List Nat, ∀ more, (f name).run ⟨ks ++ more⟩ = (.ok v, ⟨more⟩))
    {xs : List Symbol} {w : Text} (h : Derives Symbol.letter? rules.Draws n xs w) :
    ∃ vs, vs.flatten = w ∧ ∃ ks : List Nat, ∀ more, (xs.mapM (spelled f)).run ⟨ks ++ more⟩ = (.ok vs, ⟨more⟩) := by
  induction xs generalizing w with
  | nil =>
    cases h
    exact ⟨[], rfl, [], fun more => rfl⟩
  | cons x xs ih =>
    cases h with
    | @letter _ _ c _ w hc hw =>
      obtain ⟨vs, rfl, ks, hks⟩ := ih hw
      cases x with
      | terminal d =>
        cases hc
        refine ⟨[c] :: vs, rfl, ks, fun more => ?_⟩
        rw [List.mapM_cons, run_bind_ok (show (spelled f (.terminal c)).run _ = (.ok [c], _) from rfl),
          run_bind_ok (hks more)]
        rfl
      | nonterminal => cases hc
    | @choice m _ chosen _ v w hx hv hw =>
      obtain ⟨vs, rfl, ks, hks⟩ := ih hw
      cases x with
      | terminal d => cases hx
      | nonterminal name =>
        obtain ⟨a, ha, rfl⟩ := hx
        obtain ⟨js, hjs⟩ := hf m name a v rfl ha hv
        refine ⟨v :: vs, rfl, js ++ ks, fun more => ?_⟩
        have hname : (spelled f (.nonterminal name)).run ⟨js ++ ks ++ more⟩ = (.ok v, ⟨ks ++ more⟩) := by
          rw [List.append_assoc]
          exact hjs (ks ++ more)
        rw [List.mapM_cons, run_bind_ok hname, run_bind_ok (hks more)]
        rfl

theorem exists_expand {rules : Rules} {depth : Nat} {t v : Text}
    (h : Derives Symbol.letter? rules.Draws depth (symbols t) v) :
    ∃ ks : List Nat, ∀ more, (expand rules depth t).run (⟨ks ++ more⟩ : Script) = (.ok v, ⟨more⟩) := by
  induction depth generalizing t v with
  | zero =>
    obtain ⟨vs, rfl, ks, hks⟩ := exists_spelled (f := fun _ => throw .tooDeep)
      (fun m name a v hm => by cases hm) h
    refine ⟨ks, fun more => ?_⟩
    rw [expand_zero, map_eq_pure_bind, run_bind_ok (hks more)]
    rfl
  | succ depth ih =>
    have hf : ∀ m name a v, depth + 1 = m + 1 → a ∈ rules.alternativesFor name →
        Derives Symbol.letter? rules.Draws m (symbols a) v →
        ∃ ks : List Nat, ∀ more, (replacement rules depth name).run (⟨ks ++ more⟩ : Script) = (.ok v, ⟨more⟩) := by
      intro m name a v hm ha hd
      cases hm
      obtain ⟨is, his⟩ := exists_pick ha
      obtain ⟨js, hjs⟩ := ih hd
      refine ⟨is ++ js, fun more => ?_⟩
      have hpick : (modifyGet (pick rules name) : Draw Script Text).run ⟨is ++ js ++ more⟩ =
          (.ok a, ⟨js ++ more⟩) := by
        rw [run_pick, List.append_assoc, his]
      rw [replacement, run_bind_ok hpick, hjs]
    obtain ⟨vs, rfl, ks, hks⟩ := exists_spelled hf h
    refine ⟨ks, fun more => ?_⟩
    rw [expand_succ, map_eq_pure_bind, run_bind_ok (hks more)]
    rfl

/-! ## Sentences -/

variable {rules : Rules}

theorem derives_of_draw {σ : Type} [RandomSource σ] {t : Text} {s s' : σ}
    (h : (draw rules).run s = (.ok t, s')) :
    ∃ w, Derives Symbol.letter? rules.Draws maxDepth [.nonterminal startNonterminal] w ∧ t = unescape w := by
  obtain ⟨a, s₁, ha, h⟩ := run_bind_eq_ok.mp h
  obtain ⟨w, s₂, hw, h⟩ := run_bind_eq_ok.mp h
  obtain ⟨rfl, -⟩ := run_pure_eq_ok.mp h
  have hmem : (pick rules startNonterminal s).1 ∈ rules.alternativesFor startNonterminal := pick_mem _ s
  cases ha
  have hd : Derives Symbol.letter? rules.Draws maxDepth [.nonterminal startNonterminal] (w ++ []) :=
    .choice ⟨_, hmem, rfl⟩ (derives_of_expand hw) .done
  rw [List.append_nil] at hd
  exact ⟨w, hd, rfl⟩

theorem exists_draw {w : Text}
    (h : Derives Symbol.letter? rules.Draws maxDepth [.nonterminal startNonterminal] w) :
    ∃ s s' : Script, (draw rules).run s = (.ok (unescape w), s') := by
  cases h with
  | letter hc _ => cases hc
  | @choice _ _ _ _ v _ hx hv hw =>
    cases hw
    obtain ⟨a, ha, rfl⟩ := hx
    obtain ⟨is, his⟩ := exists_pick ha
    obtain ⟨js, hjs⟩ := exists_expand (show Derives _ _ (maxDepth - 1) (symbols a) v from hv)
    refine ⟨⟨is ++ (js ++ [])⟩, ⟨[]⟩, ?_⟩
    have hpick : (modifyGet (pick rules startNonterminal) : Draw Script Text).run ⟨is ++ (js ++ [])⟩ =
        (.ok a, ⟨js ++ []⟩) := by
      rw [run_pick, his]
    rw [draw, run_bind_ok hpick, run_bind_ok (hjs []), List.append_nil]
    rfl

end Sentence

end Errand
