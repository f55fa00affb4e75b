/-
  Errand.Proofs.Task.Ceiling — the tier of a request bounds all of its task.

  A tier stands over two choices. It bounds the grammars that a sentence may be drawn from:
  each attempt takes one of the highest tier among those that it allows (`chooseAmong_highest`).
  And it bounds the entities in the pools, and with them all that is bound (`tiers_bound`).

  What a request does is laid open as its attempts, each with the grammar it took and what
  came of it (`attempts`). They are those that it makes one after another until it ends as it
  does (`tries_attempts`), so a task that it comes to is that of one of its attempts
  (`Tries.task`). Calls that were made before leave the grammars and the entities as they
  were, so it does not matter which ones (`after_given`).
-/

import Errand.Proofs.Task.Requests
import Errand.Proofs.Task.Conservation
import Errand.Proofs.Task.Weaving

namespace Errand

/-- The tier that a request is for: what its argument stands for, the highest if nothing. -/
def Tier.asked (v : Value) : Tier := (ofValue? v).getD .high

namespace TaskSource

/-! ## The grammars of a request -/

/-- A grammar that a request for a tier may take: none of those that are neither too easy to
    be chosen nor above that tier has a higher one. -/
structure Topmost (grammars : List Grammar) (tier : Tier) (grammar : Grammar) : Prop where
  mem : grammar ∈ grammars
  selectable : .easy ≤ grammar.tier ∧ grammar.tier ≤ tier
  highest : ∀ other ∈ grammars, .easy ≤ other.tier → other.tier ≤ tier → other.tier ≤ grammar.tier

theorem mem_tiers_iff {tier t : Tier} : t ∈ tiers.filter (· ≤ tier) ↔ .easy ≤ t ∧ t ≤ tier := by
  cases tier <;> cases t <;> decide

theorem tiers_pairwise (tier : Tier) : (tiers.filter (· ≤ tier)).Pairwise (fun t t' => t' ≤ t) := by
  cases tier <;> decide

variable {σ : Type} [RandomSource σ]

/-- What is chosen is of the first tier that any grammar has, and nothing is chosen only if no
    grammar has any of the tiers. -/
theorem chooseAmong_highest {tiers : List Tier} (h : tiers.Pairwise fun t t' => t' ≤ t) (g : TaskSource σ) :
    (((chooseAmong tiers).run g).1 = none ∧ ∀ x ∈ g.grammars, x.tier ∉ tiers) ∨
    ∃ grammar ∈ g.grammars, ((chooseAmong tiers).run g).1 = some grammar ∧ grammar.tier ∈ tiers ∧
      ∀ x ∈ g.grammars, x.tier ∈ tiers → x.tier ≤ grammar.tier := by
  induction tiers generalizing g with
  | nil => exact Or.inl ⟨rfl, fun x _ hx => by cases hx⟩
  | cons tier rest ih =>
    obtain ⟨hhead, hrest⟩ := List.pairwise_cons.mp h
    rw [chooseAmong, run_bind_state]
    split
    · rename_i first more hfilter
      right
      have hmem : ∀ x ∈ first :: more, x ∈ g.grammars ∧ x.tier = tier := by
        rw [← hfilter]
        intro x hx
        obtain ⟨hx, ht⟩ := List.mem_filter.mp hx
        exact ⟨hx, beq_iff_eq.mp ht⟩
      obtain ⟨hg, ht⟩ := hmem _ (List.get_mem (first :: more) (((RandomSource.choose more.length g.random).1).cast (by simp)))
      refine ⟨_, hg, rfl, ?_, fun x _ hx => ?_⟩
      · rw [ht]
        exact List.mem_cons_self
      · rw [ht]
        rcases List.mem_cons.mp hx with hx | hx
        · rw [hx]
          exact Int.le_refl _
        · exact hhead _ hx
    · rename_i hfilter
      have hnone : ∀ x ∈ g.grammars, x.tier ≠ tier := fun x hx ht =>
        List.filter_eq_nil_iff.mp hfilter x hx (beq_iff_eq.mpr ht)
      rcases ih hrest _ with ⟨hrun, hall⟩ | ⟨grammar, hg, hrun, ht, hle⟩
      · refine Or.inl ⟨hrun, fun x hx hmem => ?_⟩
        rcases List.mem_cons.mp hmem with hmem | hmem
        · exact hnone x hx hmem
        · exact hall x hx hmem
      · refine Or.inr ⟨grammar, hg, hrun, List.mem_cons_of_mem _ ht, fun x hx hmem => ?_⟩
        rcases List.mem_cons.mp hmem with hmem | hmem
        · exact absurd hmem (hnone x hx)
        · exact hle x hx hmem

/-- Without a name, a grammar is chosen if there is one to choose, and then a topmost one. -/
theorem select_topmost (tier : Tier) (g : TaskSource σ) :
    (((select tier none).run g).1 = none ∧ ∀ x ∈ g.grammars, ¬(.easy ≤ x.tier ∧ x.tier ≤ tier)) ∨
    ∃ grammar, ((select tier none).run g).1 = some grammar ∧ Topmost g.grammars tier grammar := by
  rw [select]
  dsimp only [Option.filter_none]
  rw [run_bind_state]
  rcases chooseAmong_highest (tiers_pairwise tier) g with ⟨hrun, hall⟩ | ⟨grammar, hg, hrun, ht, hle⟩
  · rw [hrun]
    exact Or.inl ⟨rfl, fun x hx hin => hall x hx (mem_tiers_iff.mpr hin)⟩
  · rw [hrun]
    refine Or.inr ⟨grammar, rfl, hg, mem_tiers_iff.mp ht, fun x hx h₁ h₂ => ?_⟩
    exact hle x hx (mem_tiers_iff.mpr ⟨h₁, h₂⟩)

/-! ## Attempts -/

/-- The warning that an attempt failed when there were `left` more. -/
def failed (left : Nat) (f : Fault) : LogEntry :=
  ⟨.warning, "Attempt ".text ++ decimal (maxAttempts - left) ++ "/".text ++ decimal maxAttempts ++
    " failed: ".text ++ f.message⟩

/-- The attempts of a request that may make `left` of them: the grammar that each one took,
    and what came of it. -/
def attempts (tier : Tier) (name : Option Text) : (left : Nat) → TaskSource σ → List (Grammar × Except Fault Task)
  | 0, _ => []
  | left + 1, g =>
    match (select tier name).run g with
    | (none, _) => []
    | (some grammar, g) =>
      match (attempt tier grammar).run g with
      | (.ok t, _) => [(grammar, .ok t)]
      | (.error f, g) =>
        (grammar, .error f) ::
          if f.isOrdinary then attempts tier name left { g with log := g.log ++ [failed left f] } else []

/-- How a request goes on when it may make `left` more attempts: what they are, and what comes
    of it in the end. -/
inductive Tries (tier : Tier) (name : Option Text) :
    (left : Nat) → TaskSource σ → List (Grammar × Except Fault Task) → Except Fault (Option Task) → Prop
  | spent {g : TaskSource σ} : Tries tier name 0 g [] (.ok none)
  | unchosen {left : Nat} {g g₁ : TaskSource σ} : (select tier name).run g = (none, g₁) →
      Tries tier name (left + 1) g [] (.ok none)
  | made {left : Nat} {g g₁ g₂ : TaskSource σ} {grammar : Grammar} {t : Task} :
      (select tier name).run g = (some grammar, g₁) → (attempt tier grammar).run g₁ = (.ok t, g₂) →
      Tries tier name (left + 1) g [(grammar, .ok t)] (.ok (some t))
  | broken {left : Nat} {g g₁ g₂ : TaskSource σ} {grammar : Grammar} {f : Fault} :
      (select tier name).run g = (some grammar, g₁) → (attempt tier grammar).run g₁ = (.error f, g₂) →
      f.isOrdinary = false → Tries tier name (left + 1) g [(grammar, .error f)] (.error f)
  | again {left : Nat} {g g₁ g₂ : TaskSource σ} {grammar : Grammar} {f : Fault}
      {later : List (Grammar × Except Fault Task)} {outcome : Except Fault (Option Task)} :
      (select tier name).run g = (some grammar, g₁) → (attempt tier grammar).run g₁ = (.error f, g₂) →
      f.isOrdinary = true → Tries tier name left { g₂ with log := g₂.log ++ [failed left f] } later outcome →
      Tries tier name (left + 1) g ((grammar, .error f) :: later) outcome

theorem tries_attempts (tier : Tier) (name : Option Text) (left : Nat) (g : TaskSource σ) :
    Tries tier name left g (attempts tier name left g) ((tryTask tier name left).run g).1 := by
  induction left generalizing g with
  | zero => exact .spent
  | succ left ih =>
    rw [attempts, tryTask, run_bind_ok run_lift]
    rcases hselect : (select tier name).run g with ⟨_ | grammar, g₁⟩
    · exact .unchosen hselect
    rw [run_bind_ok run_lift]
    rcases hattempt : StateT.run (attempt tier grammar).run g₁ with ⟨f | t, g₂⟩
    · have hrun : (attempt tier grammar).run g₁ = (.error f, g₂) := hattempt
      dsimp only
      rw [hrun]
      by_cases hf : f.isOrdinary = true
      · simp only [if_pos hf]
        rw [run_bind_ok run_lift]
        exact .again hselect hattempt hf (ih _)
      · simp only [if_neg hf]
        exact .broken hselect hattempt (Bool.eq_false_iff.mpr hf)
    · have hrun : (attempt tier grammar).run g₁ = (.ok t, g₂) := hattempt
      dsimp only
      rw [hrun]
      exact .made hselect hattempt

section
variable {tier : Tier} {name : Option Text} {left : Nat} {g : TaskSource σ}
  {as : List (Grammar × Except Fault Task)} {outcome : Except Fault (Option Task)}

/-- All attempts are made with the same grammars and entities. -/
theorem again_given {grammar : Grammar} {res : Except Fault Task} {g₁ g₂ : TaskSource σ}
    (hselect : (select tier name).run g = (some grammar, g₁)) (hattempt : (attempt tier grammar).run g₁ = (res, g₂)) :
    g₁.given = g.given ∧ g₂.given = g.given := by
  have h₁ := (select_spec tier name g).1
  rw [hselect] at h₁
  exact ⟨h₁, ((attempt_given tier grammar).eq hattempt).trans h₁⟩

theorem topmost_of_select {grammar : Grammar} {g₁ : TaskSource σ} (h : (select tier none).run g = (some grammar, g₁)) :
    Topmost g.grammars tier grammar := by
  rcases select_topmost tier g with ⟨hnone, -⟩ | ⟨grammar', hsome, htop⟩
  · rw [h] at hnone
    cases hnone
  · rw [h] at hsome
    cases hsome
    exact htop

theorem Tries.topmost (h : Tries tier none left g as outcome) : ∀ a ∈ as, Topmost g.grammars tier a.1 := by
  induction h with
  | spent => exact fun a ha => by cases ha
  | unchosen => exact fun a ha => by cases ha
  | made hselect => exact List.forall_mem_singleton.mpr (topmost_of_select hselect)
  | broken hselect => exact List.forall_mem_singleton.mpr (topmost_of_select hselect)
  | again hselect hattempt _ _ ih =>
    refine List.forall_mem_cons.mpr ⟨topmost_of_select hselect, ?_⟩
    rw [← (Prod.mk.inj (again_given hselect hattempt).2).1]
    exact ih

/-- A task comes of the attempt that made it. -/
theorem Tries.task {t : Task} (h : Tries tier name left g as (.ok (some t))) :
    ∃ (grammar : Grammar) (g₁ g₂ : TaskSource σ), (grammar, .ok t) ∈ as ∧ g₁.given = g.given ∧
      (attempt tier grammar).run g₁ = (.ok t, g₂) := by
  generalize houtcome : Except.ok (some t) = outcome at h
  induction h with
  | spent => cases houtcome
  | unchosen => cases houtcome
  | broken => cases houtcome
  | made hselect hattempt =>
    cases houtcome
    exact ⟨_, _, _, List.mem_singleton.mpr rfl, (again_given hselect hattempt).1, hattempt⟩
  | again hselect hattempt _ _ ih =>
    obtain ⟨grammar, g₁, g₂, hmem, hgiven, hmade⟩ := ih houtcome
    exact ⟨grammar, g₁, g₂, List.mem_cons_of_mem _ hmem, hgiven.trans (again_given hselect hattempt).2, hmade⟩

/-- A request that may make an attempt makes none if and only if there is no grammar for it. -/
theorem Tries.eq_nil_iff (h : Tries tier none (left + 1) g as outcome) :
    as = [] ↔ ∀ x ∈ g.grammars, ¬(.easy ≤ x.tier ∧ x.tier ≤ tier) := by
  constructor
  · rintro rfl
    cases h with
    | unchosen hselect =>
      rcases select_topmost tier g with ⟨-, hall⟩ | ⟨grammar, hsome, -⟩
      · exact hall
      · rw [hselect] at hsome
        cases hsome
  · intro hall
    refine List.eq_nil_iff_forall_not_mem.mpr fun a ha => ?_
    have htop := h.topmost a ha
    exact hall a.1 htop.mem htop.selectable

theorem Tries.ended (h : Tries tier name left g [] outcome) : outcome = .ok none := by
  cases h with
  | spent => rfl
  | unchosen => rfl

end

/-! ## The task of an attempt -/

theorem attempt_ok {tier : Tier} {grammar : Grammar} {t : Task} {g g' : TaskSource σ}
    (h : (attempt tier grammar).run g = (.ok t, g')) : ∃ (sentence : Text) (random : σ) (t' : Task) (r : Resolver σ),
      grammar.rules.Makes sentence ∧
      (Resolver.task g.store sentence).run (Resolver.start g.store tier random g.next) = (.ok t', r) ∧
      t = { t' with grammar := grammar.name } := by
  obtain ⟨sentence, g₁, hs, h⟩ := run_bind_eq_ok.mp h
  obtain ⟨t', g₂, ht, h⟩ := run_bind_eq_ok.mp h
  obtain ⟨rfl, rfl⟩ := run_pure_eq_ok.mp h
  rw [sentence_eq] at hs
  rcases hdraw : (Sentence.draw grammar.rules).run g.random with ⟨f | w, random⟩
  · rw [hdraw] at hs
    cases hs
  rw [hdraw] at hs
  cases hs
  rw [taskOf_eq] at ht
  rcases hrun : (Resolver.task g.store sentence).run (Resolver.start g.store tier random g.next) with ⟨f | t'', r⟩
  · rw [hrun] at ht
    cases ht
  · rw [hrun] at ht
    cases ht
    exact ⟨sentence, random, t', r, Sentence.derives_of_draw hdraw, hrun, rfl⟩

end TaskSource

namespace Resolver
variable {σ : Type} [RandomSource σ] {store : Store} {r r' : Resolver σ}

/-- Whatever entity is bound was in a pool before. -/
theorem mem_pools_of_bound {groups : List Group} {occurrences : List Occurrence} {bound : Bindings}
    (h : (bindAll store groups occurrences).run r = (.ok bound, r')) {k : Text} {e : Entity}
    (he : (k, .entity e) ∈ bound) : ∃ d, e ∈ r.pools.get d := by
  have hinit : AllMet store r.pools groups [] r := ⟨fun d e he => he, fun k x hx => by cases hx⟩
  obtain ⟨-, -, named, -, -, ⟨-, hmet⟩, rfl⟩ :=
    bindAll_invariant (allMet_keeps r.pools groups) (fun _ _ _ hi => hi) h hinit
  rcases List.mem_append.mp he with he | he
  · obtain ⟨g, d, -, -, hm⟩ := hmet k _ he
    cases d with
    | nothing => cases hm
    | entity wish =>
      obtain ⟨e', filter, heq, hmem, -⟩ := hm
      cases heq
      exact ⟨wish.domain, hmem⟩
  -- a pronoun is bound to no entity
  · obtain ⟨g, -, heq⟩ := List.mem_map.mp he
    cases heq

/-- With fresh pools, the tiers of all that is bound are bounded. -/
theorem tiers_bound {tier : Tier} {source : σ} {next : Int} {sentence : Text} {found : Found} {r₁ : Resolver σ}
    {bound : Bindings} (hscan : (scanned sentence).run (start store tier source next) = (.ok found, r₁))
    (h : (bindAll store (Group.ofOccurrences found.all) found.all).run r₁ = (.ok bound, r')) {k : Text} {e : Entity}
    (he : (k, .entity e) ∈ bound) (htiered : e.domain.isTiered = true) : ∃ t, e.tier? = some t ∧ t ≤ tier := by
  obtain ⟨d, hd⟩ := mem_pools_of_bound h he
  rw [scanned_pools hscan] at hd
  obtain ⟨hmem, ht⟩ := Pools.mem_ofStore ((start_pools_perm store tier source next d).subset hd)
  rw [Store.domain_of_mem hmem] at htiered
  exact ht htiered

end Resolver

/-! ## Call after call -/

namespace TaskSource

/-- What a source of tasks can be called for. -/
inductive Call where
  /-- A random grammar up to a tier. -/
  | choose (tier : Tier)
  | select (tier : Tier) (name : Option Text)
  | sentence (tier : Tier) (name : Option Text)
  | task (tier : Tier) (name : Option Text)

variable {σ : Type} [RandomSource σ]

/-- How a call leaves the source, whatever comes of it. -/
def Call.after (g : TaskSource σ) : Call → TaskSource σ
  | .choose tier => ((chooseAmong (tiers.filter (· ≤ tier))).run g).2
  | .select tier name => ((TaskSource.select tier name).run g).2
  | .sentence tier name => ((anySentence tier name).run g).2
  | .task tier name => ((TaskSource.task tier name).run g).2

theorem anySentence_given (tier : Tier) (name : Option Text) : Retains given (anySentence (σ := σ) tier name) := by
  have hselect : Retains given (ExceptT.lift (select tier name) : Supplying σ _) := fun g => (select_spec tier name g).1
  have hsentence (grammar : Grammar) : Retains given (sentence (σ := σ) grammar) := fun g => by rw [sentence_eq]; rfl
  refine hselect.bind fun chosen => ?_
  rcases chosen with _ | grammar
  · exact retains_pure _
  · exact (hsentence grammar).bind fun _ => retains_pure _

/-- Calls leave the grammars and the entities as they are. -/
theorem after_given (calls : List Call) (g : TaskSource σ) : (calls.foldl Call.after g).given = g.given := by
  induction calls generalizing g with
  | nil => rfl
  | cons call calls ih =>
    refine (ih _).trans ?_
    cases call with
    | choose tier => exact (chooseAmong_spec _ g).1
    | select tier name => exact (select_spec tier name g).1
    | sentence tier name => exact anySentence_given tier name g
    | task tier name => exact tryTask_given g

/-- The tier of a request without a name bounds its whole task, whatever was called for before.
    Its attempts are those that it makes, one after another, on the way to what it comes to.
    Without any grammar that can be chosen up to that tier there is no attempt and no task.
    Otherwise there is an attempt, and each one takes a grammar of the highest tier that is
    allowed. A task carries the name of the grammar of its attempt, its sentence was drawn from
    that grammar, and no object, gesture or question that is bound in it is above the tier. -/
theorem task_within_tier (grammars : List Grammar) (store : Store) (random : σ) (earlier : List Call) (argument : Value) :
    let tier := Tier.asked argument
    let g := earlier.foldl Call.after (start grammars store random)
    let made := attempts tier none maxAttempts g
    Tries tier none maxAttempts g made ((task tier none).run g).1 ∧
    ((made = [] ∧ ((task tier none).run g).1 = .ok none) ↔ ∀ x ∈ grammars, ¬(.easy ≤ x.tier ∧ x.tier ≤ tier)) ∧
    ((∃ x ∈ grammars, .easy ≤ x.tier ∧ x.tier ≤ tier) → made ≠ [] ∧ ∀ a ∈ made, Topmost grammars tier a.1) ∧
    ∀ t, ((task tier none).run g).1 = .ok (some t) →
      ∃ (grammar : Grammar) (sentence : Text) (source : σ) (next : Int) (found : Found) (r₁ r' : Resolver σ)
          (bound : Resolver.Bindings),
        Topmost grammars tier grammar ∧ (grammar, .ok t) ∈ made ∧ grammar.rules.Makes sentence ∧
        (Resolver.scanned sentence).run (Resolver.start store tier source next) = (.ok found, r₁) ∧
        (Resolver.bindAll store (Group.ofOccurrences found.all) found.all).run r₁ = (.ok bound, r') ∧
        t = ⟨Resolver.weave (Resolver.tokenOf store (Group.ofOccurrences found.all) bound) 0 sentence found.direct,
          Resolver.assignments (Group.ofOccurrences found.all) bound, grammar.name⟩ ∧
        t.tokens.flatMap Token.source = sentence ∧
        ∀ k e, (k, .entity e) ∈ bound → e.domain.isTiered = true → ∃ t, e.tier? = some t ∧ t ≤ tier := by
  intro tier g made
  obtain ⟨hgrammars, hstore⟩ := Prod.mk.inj (after_given earlier (start grammars store random))
  have hgrammars : g.grammars = grammars := hgrammars
  have hstore : g.store = store := hstore
  have htries : Tries tier none maxAttempts g made ((task tier none).run g).1 := tries_attempts tier none maxAttempts g
  have hempty := htries.eq_nil_iff
  have htop := htries.topmost
  rw [hgrammars] at hempty htop
  refine ⟨htries, ⟨fun h => hempty.mp h.1, fun hall => ?_⟩, ?_, ?_⟩
  · have hnil := hempty.mpr hall
    rw [hnil] at htries
    exact ⟨hnil, htries.ended⟩
  · rintro ⟨x, hx, hin⟩
    exact ⟨fun hnil => hempty.mp hnil x hx hin, htop⟩
  · intro t ht
    rw [ht] at htries
    obtain ⟨grammar, g₁, g₂, hmem, hgiven, hattempt⟩ := htries.task
    have hstore₁ : g₁.store = store := (Prod.mk.inj hgiven).2.trans hstore
    obtain ⟨sentence, random', t', r', hmakes, hrun, rfl⟩ := attempt_ok hattempt
    rw [hstore₁] at hrun
    obtain ⟨found, r₁, bound, hscan, hbound, rfl⟩ := Resolver.task_ok hrun
    obtain ⟨next, hfound, -⟩ := Resolver.scanned_eq_ok_iff.mp hscan
    refine ⟨grammar, sentence, random', _, found, r₁, r', bound, htop _ hmem, hmem, hmakes, hscan, hbound, rfl, ?_, ?_⟩
    · exact Resolver.weave_source (Resolver.tokenOf_source store _ bound) (laid_of_scan hfound)
    · exact fun k e he htiered => Resolver.tiers_bound hscan hbound he htiered

/-- Up to a moderate tier, neither the hard grammar nor the heavy anvil is for the taking. -/
example :
    let g := start [⟨"lifting".text, .high, [⟨startNonterminal, ["lift \x7bobject\x7d".text]⟩], none⟩,
      ⟨"fetching".text, .easy, [⟨startNonterminal, ["fetch \x7bobject\x7d".text]⟩], none⟩] Resolver.pantry (⟨[]⟩ : Script)
    (attempts (.asked (.text "Moderate".text)) none maxAttempts g).map (fun a => (a.1.name, a.2.toOption.map Task.text)) =
      [("fetching".text, some "fetch cup".text)] := by
  decide +kernel

end TaskSource

end Errand
