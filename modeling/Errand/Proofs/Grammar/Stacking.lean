/-
  Errand.Proofs.Grammar.Stacking — drawing on a stack is leftmost recursive derivation.

  The recursion without a bound is a relation between symbols and what becomes of them
  (`Becomes`): a nonterminal becomes all that its alternative becomes, before the next
  symbol is looked at. It says which nonterminals were replaced and in which order, and
  how many texts stood one inside the other. `Overruns` is the same recursion up to a
  nonterminal that stands inside too many.

  - `becomes_or_overruns`: from every source of choices the recursion does one or the other.
  - `reaches_closed`: what the stack does with one text, whatever lies below it, by
    induction on how many texts may still be put on it and on the length of the text. It is
    where the stack is seen to come to an end.
  - `Becomes.tally`, `Overruns.tally`: one draw for each replaced nonterminal with a rule.
  - `draw_leftmost`: all of it for a whole sentence.
-/

import Errand.Grammar.Stack
import Errand.Proofs.Random.Tally
import Errand.Proofs.Grammar.Drawing
import Mathlib.Logic.Function.Iterate

namespace Errand

namespace Sentence

/-! ## The recursion -/

section Relations
variable {σ : Type} [RandomSource σ]

/-- Symbols become a text, `nesting` texts or fewer one inside the other. The nonterminals
    that are replaced on the way are listed in the order in which choices are made for them. -/
inductive Becomes (rules : Rules) :
    (nesting : Nat) → List Symbol → σ → (replaced : List Text) → Text → σ → Prop
  | done {n : Nat} {s : σ} : Becomes rules n [] s [] [] s
  | literal {n : Nat} {c : CodePoint} {rest : List Symbol} {s s' : σ} {replaced : List Text} {w : Text} :
      Becomes rules n rest s replaced w s' → Becomes rules n (.terminal c :: rest) s replaced (c :: w) s'
  | replaced {n : Nat} {name a v w : Text} {rest : List Symbol} {s s₁ s₂ s' : σ} {inner outer : List Text} :
      pick rules name s = (a, s₁) → Becomes rules n (symbols a) s₁ inner v s₂ →
      Becomes rules (n + 1) rest s₂ outer w s' →
      Becomes rules (n + 1) (.nonterminal name :: rest) s (name :: (inner ++ outer)) (v ++ w) s'

/-- The recursion comes to a nonterminal whose alternative would be one text too many. What
    stands to the left of it has become text, and no choice is made for it. -/
inductive Overruns (rules : Rules) :
    (nesting : Nat) → List Symbol → σ → (replaced : List Text) → σ → Prop
  | here {name : Text} {rest : List Symbol} {s : σ} : Overruns rules 0 (.nonterminal name :: rest) s [] s
  | literal {n : Nat} {c : CodePoint} {rest : List Symbol} {s s' : σ} {replaced : List Text} :
      Overruns rules n rest s replaced s' → Overruns rules n (.terminal c :: rest) s replaced s'
  | inside {n : Nat} {name a : Text} {rest : List Symbol} {s s₁ s' : σ} {inner : List Text} :
      pick rules name s = (a, s₁) → Overruns rules n (symbols a) s₁ inner s' →
      Overruns rules (n + 1) (.nonterminal name :: rest) s (name :: inner) s'
  | behind {n : Nat} {name a v : Text} {rest : List Symbol} {s s₁ s₂ s' : σ} {inner outer : List Text} :
      pick rules name s = (a, s₁) → Becomes rules n (symbols a) s₁ inner v s₂ →
      Overruns rules (n + 1) rest s₂ outer s' →
      Overruns rules (n + 1) (.nonterminal name :: rest) s (name :: (inner ++ outer)) s'

end Relations

section
variable {σ : Type} [RandomSource σ] {rules : Rules}

/-- From every source, symbols become a text or come to a nonterminal too deep. -/
theorem becomes_or_overruns (rules : Rules) (n : Nat) (xs : List Symbol) (s : σ) :
    (∃ replaced w s', Becomes rules n xs s replaced w s') ∨ ∃ replaced s', Overruns rules n xs s replaced s' := by
  induction n using Nat.strongRecOn generalizing xs s with
  | ind n ihn =>
    induction xs generalizing s with
    | nil => exact Or.inl ⟨_, _, _, .done⟩
    | cons x xs ih =>
      cases x with
      | terminal c =>
        rcases ih s with ⟨_, _, _, h⟩ | ⟨_, _, h⟩
        · exact Or.inl ⟨_, _, _, h.literal⟩
        · exact Or.inr ⟨_, _, h.literal⟩
      | nonterminal name =>
        cases n with
        | zero => exact Or.inr ⟨_, _, .here⟩
        | succ n =>
          rcases ihn n (Nat.lt_succ_self n) (symbols (pick rules name s).1) (pick rules name s).2 with
            ⟨_, v, s₂, hv⟩ | ⟨_, _, hv⟩
          · rcases ih s₂ with ⟨_, _, _, h⟩ | ⟨_, _, h⟩
            · exact Or.inl ⟨_, _, _, .replaced rfl hv h⟩
            · exact Or.inr ⟨_, _, .behind rfl hv h⟩
          · exact Or.inr ⟨_, _, .inside rfl hv⟩

/-! ## What the recursion comes to is drawn -/

/-- A nonterminal where `depth` further texts may stand inside a text. -/
def nested (rules : Rules) : (depth : Nat) → Text → Draw σ Text
  | 0, _ => throw .tooDeep
  | depth + 1, name => replacement rules depth name

theorem expand_eq (depth : Nat) (t : Text) : (expand rules depth t : Draw σ Text) =
    List.flatten <$> (symbols t).mapM (spelled (nested rules depth)) := by
  cases depth with
  | zero => exact expand_zero t
  | succ depth => exact expand_succ depth t

/-- What symbols become, put together. -/
def respell (rules : Rules) (depth : Nat) (xs : List Symbol) : Draw σ Text :=
  List.flatten <$> xs.mapM (spelled (nested rules depth))

theorem respell_cons (depth : Nat) (x : Symbol) (xs : List Symbol) : (respell rules depth (x :: xs) : Draw σ Text) =
    (do let v ← spelled (nested rules depth) x
        let w ← respell rules depth xs
        pure (v ++ w)) := by
  simp only [respell, List.mapM_cons, map_eq_pure_bind, bind_assoc, pure_bind, List.flatten_cons]

theorem run_respell_literal {depth : Nat} {c : CodePoint} {xs : List Symbol} {s : σ} :
    (respell rules depth (.terminal c :: xs)).run s =
      (((respell rules depth xs).run s).1.map (c :: ·), ((respell rules depth xs).run s).2) := by
  rw [respell_cons, run_bind_ok (show (spelled (nested rules depth) (.terminal c)).run s = (.ok [c], s) from rfl)]
  exact run_bind_pure

theorem run_replacement (depth : Nat) {name a : Text} {s s₁ : σ} (h : pick rules name s = (a, s₁)) :
    (replacement rules depth name).run s = (respell rules depth (symbols a)).run s₁ := by
  rw [replacement, run_bind_ok (run_pick name s), h, expand_eq]
  rfl

theorem run_respell_replaced {depth : Nat} {name a v : Text} {xs : List Symbol} {s s₁ s₂ : σ}
    (hp : pick rules name s = (a, s₁)) (h : (respell rules depth (symbols a)).run s₁ = (.ok v, s₂)) :
    (respell rules (depth + 1) (.nonterminal name :: xs)).run s =
      (((respell rules (depth + 1) xs).run s₂).1.map (v ++ ·), ((respell rules (depth + 1) xs).run s₂).2) := by
  have hname : (spelled (nested rules (depth + 1)) (.nonterminal name)).run s = (.ok v, s₂) :=
    (run_replacement depth hp).trans h
  rw [respell_cons, run_bind_ok hname]
  exact run_bind_pure

theorem run_respell_inside {depth : Nat} {name a : Text} {xs : List Symbol} {s s₁ s' : σ} {fault : SentenceFault}
    (hp : pick rules name s = (a, s₁)) (h : (respell rules depth (symbols a)).run s₁ = (.error fault, s')) :
    (respell rules (depth + 1) (.nonterminal name :: xs)).run s = (.error fault, s') := by
  have hname : (spelled (nested rules (depth + 1)) (.nonterminal name)).run s = (.error fault, s') :=
    (run_replacement depth hp).trans h
  rw [respell_cons, run_bind_error hname]

theorem Becomes.run_respell {n : Nat} {xs : List Symbol} {s s' : σ} {replaced : List Text} {w : Text}
    (h : Becomes rules n xs s replaced w s') : (respell rules n xs).run s = (.ok w, s') := by
  induction h with
  | done => rfl
  | literal _ ih => rw [run_respell_literal, ih]; rfl
  | replaced hp _ _ ih₁ ih₂ => rw [run_respell_replaced hp ih₁, ih₂]; rfl

theorem Overruns.run_respell {n : Nat} {xs : List Symbol} {s s' : σ} {replaced : List Text}
    (h : Overruns rules n xs s replaced s') : (respell rules n xs).run s = (.error .tooDeep, s') := by
  induction h with
  | @here name _ s =>
    rw [respell_cons, run_bind_error (show (spelled (nested rules 0) (.nonterminal name)).run s = _ from rfl)]
  | literal _ ih => rw [run_respell_literal, ih]; rfl
  | inside hp _ ih => exact run_respell_inside hp ih
  | behind hp hb _ ih => rw [run_respell_replaced hp hb.run_respell, ih]; rfl

theorem run_respell_eq_ok {n : Nat} {xs : List Symbol} {s s' : σ} {w : Text} :
    (respell rules n xs).run s = (.ok w, s') ↔ ∃ replaced, Becomes rules n xs s replaced w s' := by
  constructor
  · intro h
    rcases becomes_or_overruns rules n xs s with ⟨replaced, w', s'', hb⟩ | ⟨_, _, ho⟩
    · cases hb.run_respell.symm.trans h
      exact ⟨replaced, hb⟩
    · cases ho.run_respell.symm.trans h
  · rintro ⟨_, hb⟩
    exact hb.run_respell

theorem run_respell_eq_error {n : Nat} {xs : List Symbol} {s s' : σ} :
    (respell rules n xs).run s = (.error .tooDeep, s') ↔ ∃ replaced, Overruns rules n xs s replaced s' := by
  constructor
  · intro h
    rcases becomes_or_overruns rules n xs s with ⟨_, _, _, hb⟩ | ⟨replaced, s'', ho⟩
    · cases hb.run_respell.symm.trans h
    · cases ho.run_respell.symm.trans h
      exact ⟨replaced, ho⟩
  · rintro ⟨_, ho⟩
    exact ho.run_respell

theorem run_draw (s : σ) : (draw rules).run s =
    (((respell rules (maxDepth - 1) (symbols (pick rules startNonterminal s).1)).run (pick rules startNonterminal s).2).1.map unescape,
      ((respell rules (maxDepth - 1) (symbols (pick rules startNonterminal s).1)).run (pick rules startNonterminal s).2).2) := by
  rw [draw, run_bind_ok (run_pick startNonterminal s), expand_eq, ← respell]
  exact run_bind_pure

/-- A sentence is what the start nonterminal becomes. -/
theorem run_draw_eq (s : σ) : (draw rules).run s =
    (((respell rules maxDepth [.nonterminal startNonterminal]).run s).1.map unescape,
      ((respell rules maxDepth [.nonterminal startNonterminal]).run s).2) := by
  rw [run_draw]
  rcases hrun : (respell rules (maxDepth - 1) (symbols (pick rules startNonterminal s).1)).run
    (pick rules startNonterminal s).2 with ⟨e | w, s'⟩
  · have hstart : (respell rules maxDepth [.nonterminal startNonterminal]).run s = (.error e, s') :=
      run_respell_inside rfl hrun
    rw [hstart]
  · have hstart : (respell rules maxDepth [.nonterminal startNonterminal]).run s = (.ok (w ++ []), s') :=
      run_respell_replaced rfl hrun
    rw [hstart, List.append_nil]

end

/-! ## Up to the first nonterminal -/

theorem symbols_of_none {t : Text} (h : nextNonterminal? t = none) : symbols t = t.map .terminal := by
  induction t with
  | nil => rw [symbols]; rfl
  | cons c rest ih =>
    rw [nextNonterminal?] at h
    rw [symbols]
    dsimp only at h ⊢
    split at h
    · cases h
    · rename_i hc
      rw [if_neg hc, ih (Option.map_eq_none_iff.mp h)]
      rfl

theorem symbols_of_some {t before name after : Text} (h : nextNonterminal? t = some (before, name, after)) :
    symbols t = before.map .terminal ++ .nonterminal name :: symbols after := by
  induction t generalizing before with
  | nil => cases h
  | cons c rest ih =>
    rw [nextNonterminal?] at h
    rw [symbols]
    dsimp only at h ⊢
    split at h
    · rename_i hc
      cases h
      rw [if_pos hc]
      rfl
    · rename_i hc
      obtain ⟨⟨before, _, _⟩, hrest, he⟩ := Option.map_eq_some_iff.mp h
      cases he
      rw [if_neg hc, ih hrest]
      rfl

theorem length_after_lt {t before name after : Text} (h : nextNonterminal? t = some (before, name, after)) :
    after.length < t.length := by
  induction t generalizing before with
  | nil => cases h
  | cons c rest ih =>
    rw [nextNonterminal?] at h
    dsimp only at h
    split at h
    · cases h
      exact Nat.lt_succ_of_le (List.dropWhile_suffix isRuleChar).length_le
    · obtain ⟨⟨before, _, _⟩, hrest, he⟩ := Option.map_eq_some_iff.mp h
      cases he
      exact Nat.lt_succ_of_lt (ih hrest)

section
variable {σ : Type} [RandomSource σ] {rules : Rules}

theorem run_respell_literals {depth : Nat} {before : Text} {xs : List Symbol} {s : σ} :
    (respell rules depth (before.map .terminal ++ xs)).run s =
      (((respell rules depth xs).run s).1.map (before ++ ·), ((respell rules depth xs).run s).2) := by
  induction before with
  | nil =>
    rw [List.map_nil, List.nil_append]
    rcases (respell rules depth xs).run s with ⟨e | w, s'⟩
    · rfl
    · rfl
  | cons c before ih =>
    rw [List.map_cons, List.cons_append, run_respell_literal, ih]
    rcases (respell rules depth xs).run s with ⟨e | w, s'⟩
    · rfl
    · rfl

theorem run_respell_text {depth : Nat} {t : Text} {s : σ} (h : nextNonterminal? t = none) :
    (respell rules depth (symbols t)).run s = (.ok t, s) := by
  rw [symbols_of_none h, ← List.append_nil (t.map _), run_respell_literals]
  exact congrArg (fun w => (Except.ok w, s)) (List.append_nil t)

/-! ## The stack -/

/-- Some steps lead from one stage to another. -/
def Reaches (rules : Rules) (x y : Stage σ) : Prop := ∃ n, (step rules)^[n] x = y

theorem Reaches.of_step {x y : Stage σ} (h : step rules x = y) : Reaches rules x y := ⟨1, h⟩

theorem Reaches.trans {x y z : Stage σ} (h : Reaches rules x y) (h' : Reaches rules y z) : Reaches rules x z := by
  obtain ⟨n, rfl⟩ := h
  obtain ⟨m, rfl⟩ := h'
  exact ⟨m + n, Function.iterate_add_apply _ m n x⟩

/-- What comes of a text on the stack, given the pieces made of it before. -/
def Stage.closed (pieces : List Text) (below : List Frame) : Except SentenceFault Text × σ → Stage σ
  | (.ok w, s) => .handDown (pieces.flatten ++ w) below s
  | (.error fault, s) => .halted (.error fault) s

theorem step_of_none {t : Text} {pieces : List Text} {below : List Frame} {s : σ} (h : nextNonterminal? t = none) :
    step rules (.running ⟨t, pieces⟩ below s) = .handDown (pieces.flatten ++ t) below s := by
  rw [step, h]
  simp only [List.flatten_append, List.flatten_singleton]

theorem step_too_deep {t : Text} {pieces : List Text} {below : List Frame} {s : σ} {found : Text × Text × Text}
    (h : nextNonterminal? t = some found) (hdeep : maxDepth ≤ below.length + 1) :
    step rules (.running ⟨t, pieces⟩ below s) = .halted (.error .tooDeep) s := by
  rw [step, h]
  exact if_pos hdeep

theorem step_down {t before name after : Text} {pieces : List Text} {below : List Frame} {s : σ}
    (h : nextNonterminal? t = some (before, name, after)) (hdeep : below.length + 1 < maxDepth) :
    step rules (.running ⟨t, pieces⟩ below s) =
      .running ⟨(pick rules name s).1, []⟩ (⟨after, pieces ++ [before]⟩ :: below) (pick rules name s).2 := by
  rw [step, h]
  exact if_neg (Nat.not_le.mpr hdeep)

/-- From a text on top of the stack the steps lead to where the recursion on the symbols of
    that text leads, and leave what lies below as it was. -/
theorem reaches_closed {depth : Nat} {t : Text} {pieces : List Text} {below : List Frame} {s : σ}
    (hdepth : below.length + 1 + depth = maxDepth) :
    Reaches rules (.running ⟨t, pieces⟩ below s) (.closed pieces below ((respell rules depth (symbols t)).run s)) := by
  induction depth generalizing t pieces below s with
  | zero =>
    rcases hn : nextNonterminal? t with _ | ⟨before, name, after⟩
    · rw [run_respell_text hn]
      exact .of_step (step_of_none hn)
    · have hover : Overruns rules 0 (.nonterminal name :: symbols after) s [] s := .here
      rw [symbols_of_some hn, run_respell_literals, hover.run_respell]
      exact .of_step (step_too_deep hn (Nat.le_of_eq hdepth.symm))
  | succ depth ih =>
    -- The rest of the text behind a nonterminal is a shorter text in the same place.
    induction hlen : t.length using Nat.strongRecOn generalizing t pieces s with
    | ind len ihlen =>
      subst hlen
      rcases hn : nextNonterminal? t with _ | ⟨before, name, after⟩
      · rw [run_respell_text hn]
        exact .of_step (step_of_none hn)
      · refine (Reaches.of_step (step_down hn (by omega))).trans ?_
        refine (ih (by rw [List.length_cons]; omega)).trans ?_
        rw [symbols_of_some hn, run_respell_literals]
        rcases hinner : (respell rules depth (symbols (pick rules name s).1)).run (pick rules name s).2 with
          ⟨e | v, s₂⟩
        · rw [run_respell_inside rfl hinner]
          exact ⟨0, rfl⟩
        · rw [run_respell_replaced rfl hinner]
          have hrest : Reaches rules (.running ⟨after, pieces ++ [before] ++ [v]⟩ below s₂)
              (.closed (pieces ++ [before] ++ [v]) below ((respell rules (depth + 1) (symbols after)).run s₂)) :=
            ihlen after.length (length_after_lt hn) rfl
          refine hrest.trans ?_
          rcases (respell rules (depth + 1) (symbols after)).run s₂ with ⟨e | w, s'⟩
          · exact ⟨0, rfl⟩
          · refine ⟨0, congrArg (Stage.handDown · below s') ?_⟩
            simp only [List.flatten_append, List.flatten_singleton, List.append_assoc]

theorem reaches_draw (s : σ) :
    Reaches rules (start rules s) (.halted ((draw rules).run s).1 ((draw rules).run s).2) := by
  have h : Reaches rules (start rules s) (.closed [] [] ((respell rules (maxDepth - 1)
      (symbols (pick rules startNonterminal s).1)).run (pick rules startNonterminal s).2)) :=
    reaches_closed (by rfl)
  rw [run_draw]
  rcases hrun : (respell rules (maxDepth - 1) (symbols (pick rules startNonterminal s).1)).run
    (pick rules startNonterminal s).2 with ⟨e | w, s'⟩
  · rwa [hrun] at h
  · rwa [hrun] at h

/-! ## What is drawn -/

/-- The requests made for nonterminals: for each one with a rule, one of its alternatives. -/
def asks (rules : Rules) (names : List Text) : List Ask :=
  names.filterMap fun name =>
    match (rules.find? name).map (·.alternatives) with
    | some (first :: more) => some (.oneOf (first :: more).length)
    | _ => none

theorem asks_append (names more : List Text) : asks rules (names ++ more) = asks rules names ++ asks rules more :=
  List.filterMap_append

theorem pick_tally (rules : Rules) (name : Text) (s : σ) (asked : List Ask) : pick rules name (⟨s, asked⟩ : Tally σ) =
    ((pick rules name s).1, ⟨(pick rules name s).2, asked ++ asks rules [name]⟩) := by
  rcases hf : (rules.find? name).map (·.alternatives) with _ | _ | ⟨first, more⟩
  all_goals
    simp only [pick, asks, List.filterMap_cons, List.filterMap_nil, hf, List.append_nil, Tally.choice_eq]

theorem Becomes.tally {n : Nat} {xs : List Symbol} {s s' : σ} {replaced : List Text} {w : Text}
    (h : Becomes rules n xs s replaced w s') (asked : List Ask) :
    Becomes rules n xs (⟨s, asked⟩ : Tally σ) replaced w ⟨s', asked ++ asks rules replaced⟩ := by
  induction h generalizing asked with
  | done => exact (List.append_nil asked).symm ▸ .done
  | literal _ ih => exact (ih asked).literal
  | @replaced n name a v w rest s s₁ s₂ s' inner outer hp _ _ ih₁ ih₂ =>
    have hpick := pick_tally rules name s asked
    rw [hp] at hpick
    have h := Becomes.replaced hpick (ih₁ _) (ih₂ _)
    rwa [List.append_assoc, List.append_assoc, ← asks_append, ← asks_append] at h

theorem Overruns.tally {n : Nat} {xs : List Symbol} {s s' : σ} {replaced : List Text}
    (h : Overruns rules n xs s replaced s') (asked : List Ask) :
    Overruns rules n xs (⟨s, asked⟩ : Tally σ) replaced ⟨s', asked ++ asks rules replaced⟩ := by
  induction h generalizing asked with
  | here => exact (List.append_nil asked).symm ▸ .here
  | literal _ ih => exact (ih asked).literal
  | @inside n name a rest s s₁ s' inner hp _ ih =>
    have hpick := pick_tally rules name s asked
    rw [hp] at hpick
    have h : Overruns rules (n + 1) (.nonterminal name :: rest) (⟨s, asked⟩ : Tally σ) (name :: inner) _ :=
      .inside hpick (ih _)
    rwa [List.append_assoc, ← asks_append] at h
  | @behind n name a v rest s s₁ s₂ s' inner outer hp hb _ ih =>
    have hpick := pick_tally rules name s asked
    rw [hp] at hpick
    have h := Overruns.behind hpick (hb.tally _) (ih _)
    rwa [List.append_assoc, List.append_assoc, ← asks_append, ← asks_append] at h

/-! ## Sentences -/

theorem draw_eq_ok {s s' : σ} {t : Text} : (draw rules).run s = (.ok t, s') ↔
    ∃ replaced w, Becomes rules maxDepth [.nonterminal startNonterminal] s replaced w s' ∧ t = unescape w := by
  rw [run_draw_eq]
  constructor
  · intro h
    rcases hrun : (respell rules maxDepth [.nonterminal startNonterminal]).run s with ⟨e | w, s''⟩
    · rw [hrun] at h
      cases h
    · rw [hrun] at h
      cases h
      obtain ⟨replaced, hb⟩ := run_respell_eq_ok.mp hrun
      exact ⟨replaced, w, hb, rfl⟩
  · rintro ⟨replaced, w, hb, rfl⟩
    rw [hb.run_respell]
    rfl

theorem draw_eq_error {s s' : σ} : (draw rules).run s = (.error .tooDeep, s') ↔
    ∃ replaced, Overruns rules maxDepth [.nonterminal startNonterminal] s replaced s' := by
  rw [run_draw_eq, ← run_respell_eq_error]
  rcases (respell rules maxDepth [.nonterminal startNonterminal]).run s with ⟨⟨⟩ | w, s''⟩
  · rfl
  · constructor
    · intro h
      cases h
    · intro h
      cases h

/-- Drawing a sentence on a stack comes to an end, and in what the recursion comes to. The
    sentence is what the start nonterminal becomes by replacing nonterminals from left to
    right, each one completely before the next, with no more than a thousand texts one inside
    the other. What is picked for a nonterminal is one of its alternatives. The drawing fails
    if and only if the recursion comes to a nonterminal whose alternative would be one text
    more, and nothing is drawn for that one. Whether it fails or not, it asks for one choice
    for each nonterminal that was replaced and has a rule, in the order of replacement, and for
    nothing else. -/
theorem draw_leftmost (rules : Rules) (s : σ) :
    (∃ n, (step rules)^[n] (start rules s) = .halted ((draw rules).run s).1 ((draw rules).run s).2) ∧
    (∀ name (s' : σ), (pick rules name s').1 ∈ rules.alternativesFor name) ∧
    (∀ t s', (draw rules).run s = (.ok t, s') ↔
      ∃ replaced w, Becomes rules 1000 [.nonterminal startNonterminal] s replaced w s' ∧ t = unescape w) ∧
    (∀ s', (draw rules).run s = (.error .tooDeep, s') ↔
      ∃ replaced, Overruns rules 1000 [.nonterminal startNonterminal] s replaced s') ∧
    ∀ replaced s', (∃ w, Becomes rules 1000 [.nonterminal startNonterminal] s replaced w s') ∨
        Overruns rules 1000 [.nonterminal startNonterminal] s replaced s' →
      ∀ asked, (draw rules).run (⟨s, asked⟩ : Tally σ) =
        (((draw rules).run s).1, ⟨s', asked ++ asks rules replaced⟩) := by
  refine ⟨reaches_draw s, pick_mem, fun t s' => draw_eq_ok, fun s' => draw_eq_error, ?_⟩
  rintro replaced s' (⟨w, hb⟩ | ho) asked
  · rw [draw_eq_ok.mpr ⟨replaced, w, hb, rfl⟩, draw_eq_ok.mpr ⟨replaced, w, hb.tally asked, rfl⟩]
  · rw [draw_eq_error.mpr ⟨replaced, ho⟩, draw_eq_error.mpr ⟨replaced, ho.tally asked⟩]

/-- The name of a nonterminal does not arise from a dollar sign and what is put in behind it. -/
example : (step [⟨"$Main".text, ["$$X".text]⟩, ⟨"$X".text, ["Main".text]⟩])^[3] (start
    [⟨"$Main".text, ["$$X".text]⟩, ⟨"$X".text, ["Main".text]⟩] (⟨[]⟩ : Script)) =
      .halted (.ok "$Main".text) ⟨[]⟩ := by
  rfl

end

end Sentence

end Errand
