/-
  Errand.Proofs.Task.History — which entities the work on sentences takes, one after the
  other.

  What is bound while a sentence becomes a task is forgotten when the work ends in a
  fault, though what was drawn stays drawn. The history keeps it: one grant for each
  entity drawn, with the group it was bound to and the pools right after that
  (`taskGrants`). It follows the steps of the work and runs the very draws that the work
  runs.
  - `taskGrants_leads`: the history leads from the pools before a sentence to those after
    it, whether there is a task in the end or a fault.
  - `bindGrants_spec`: if all goes well, what was bound to entities is what the history
    tells.
  - `taskGrants_asked`: each group draws at most once for a sentence.
-/

import Errand.Proofs.Task.Binding
import Mathlib.Data.List.Perm.Subperm

namespace Errand

/-- An entity is drawn and bound to a group. -/
structure Grant where
  group : Group
  wish : Wish
  entity : Entity
  /-- The pools right after it. -/
  pools : Pools

namespace Grant

def domain (m : Grant) : Domain := m.wish.domain

/-- Who asked for what. -/
def asked (m : Grant) : Resolver.Waiting := (m.group, .entity m.wish)

/-- The keycode of the group and the entity that it got. -/
def told (m : Grant) : Text × Entity := (m.group.keycode, m.entity)

end Grant

/-- The grants of a history follow one another, from the pools at its beginning to those at
    its end. -/
inductive Leads : Pools → List Grant → Pools → Prop
  | nil {p : Pools} : Leads p [] p
  | cons {p p' : Pools} {m : Grant} {ms : List Grant} : p.Takes m.domain m.entity m.pools →
      Leads m.pools ms p' → Leads p (m :: ms) p'

theorem Leads.append {p p' p'' : Pools} {ms ms' : List Grant} (h : Leads p ms p') (h' : Leads p' ms' p'') :
    Leads p (ms ++ ms') p'' := by
  induction h with
  | nil => exact h'
  | cons ht _ ih => exact .cons ht (ih h')

/-- Nothing comes into a pool, and what is granted comes out of one. -/
theorem Leads.mem {p p' : Pools} {gs : List Grant} (h : Leads p gs p') :
    (∀ d, ∀ e ∈ p'.get d, e ∈ p.get d) ∧ ∀ g ∈ gs, g.entity ∈ p.get g.domain := by
  induction h with
  | nil => exact ⟨fun d e he => he, fun g hg => by cases hg⟩
  | @cons p p' g gs ht _ ih =>
    obtain ⟨hback, hgrants⟩ := ih
    have hfirst := ht.mem
    refine ⟨fun d e he => hfirst.1 d e (hback d e he), fun g' hg' => ?_⟩
    rcases List.mem_cons.mp hg' with rfl | hg'
    · exact hfirst.2
    · exact hfirst.1 _ _ (hgrants g' hg')

/-- The pools after some grants. -/
def poolsAfter (p : Pools) (ms : List Grant) : Pools := (ms.getLast?.map Grant.pools).getD p

theorem poolsAfter_cons (p : Pools) (m : Grant) (ms : List Grant) :
    poolsAfter p (m :: ms) = poolsAfter m.pools ms := by
  rw [poolsAfter, poolsAfter, List.getLast?_cons]
  cases ms.getLast? <;> rfl

theorem Leads.poolsAfter_eq {p p' : Pools} {ms : List Grant} (h : Leads p ms p') : poolsAfter p ms = p' := by
  induction h with
  | nil => rfl
  | cons _ _ ih => rw [poolsAfter_cons, ih]

/-- A history can be stopped after any of its grants. -/
theorem Leads.of_append {p p' : Pools} {ms ms' : List Grant} (h : Leads p (ms ++ ms') p') :
    Leads p ms (poolsAfter p ms) := by
  induction ms generalizing p with
  | nil => exact .nil
  | cons m ms ih =>
    cases h with
    | cons ht hrest =>
      rw [poolsAfter_cons]
      exact .cons ht (ih hrest)

namespace Resolver
variable {σ : Type} [RandomSource σ] (store : Store)

/-! ## The history of a sentence -/

/-- The grant to a group that was bound to an entity. -/
def grantOf (g : Group) (d : Demand) (shown : Shown) (pools : Pools) : List Grant :=
  match d, shown with
  | .entity wish, .entity e => [⟨g, wish, e, pools⟩]
  | _, _ => []

/-- The history of `bindReady`. -/
def readyGrants : List Waiting → Resolver σ → List Grant
  | [], _ => []
  | (g, d) :: rest, r =>
    match (fulfil store g.clauses d).run r with
    | (.ok shown, r') => grantOf g d shown r'.pools ++ readyGrants rest r'
    | (.error _, _) => []

/-- The history of `bindWaiting`. -/
def waitingGrants : List Waiting → Bindings → Resolver σ → List Grant
  | [], _, _ => []
  | (g, d) :: rest, bound, r =>
    match g.clauses.mapM (substitute bound) with
    | none => waitingGrants rest bound r
    | some clauses =>
      match (fulfil store clauses d).run r with
      | (.ok shown, r') =>
        grantOf g d shown r'.pools ++ waitingGrants rest (bound ++ [(g.keycode, shown)]) r'
      | (.error _, _) => []

/-- The history of `settle`. -/
def settleGrants : (most : Nat) → List Waiting → Bindings → Resolver σ → List Grant
  | 0, _, _, _ => []
  | most + 1, waiting, bound, r =>
    if waiting.isEmpty then []
    else waitingGrants store waiting bound r ++
      match (bindWaiting store waiting bound).run r with
      | (.ok (bound, left), r') =>
        if left.length = waiting.length then [] else settleGrants most left bound r'
      | (.error _, _) => []

/-- The history of `bindAll`. -/
def bindGrants (groups : List Group) (r : Resolver σ) : List Grant :=
  readyGrants store (readyOf groups) r ++
    match (bindReady store (readyOf groups) []).run r with
    | (.ok bound, r') => settleGrants store (waitingOf groups).length (waitingOf groups) bound r'
    | (.error _, _) => []

/-- The history of a sentence. -/
def taskGrants (sentence : Text) (r : Resolver σ) : List Grant :=
  match (scanned sentence).run r with
  | (.ok found, r') => bindGrants store (Group.ofOccurrences found.all) r'
  | (.error _, _) => []

variable {store} {r r' : Resolver σ}

/-! ## One group -/

/-- What is bound to entities. -/
def entitiesIn (bound : Bindings) : List (Text × Entity) :=
  bound.filterMap fun (keycode, shown) => match shown with
    | .entity e => some (keycode, e)
    | .standIn _ => none

theorem entitiesIn_append (bound more : Bindings) :
    entitiesIn (bound ++ more) = entitiesIn bound ++ entitiesIn more := List.filterMap_append

theorem fulfil_grant {g : Group} {clauses : List Text} {d : Demand} {shown : Shown}
    (h : (fulfil store clauses d).run r = (.ok shown, r')) :
    Leads r.pools (grantOf g d shown r'.pools) r'.pools ∧
      ((grantOf g d shown r'.pools).map Grant.asked).Sublist [(g, d)] ∧
      entitiesIn [(g.keycode, shown)] = (grantOf g d shown r'.pools).map Grant.told := by
  cases d with
  | nothing =>
    obtain ⟨rfl, rfl⟩ := fulfil_nothing h
    exact ⟨.nil, List.nil_sublist _, rfl⟩
  | entity wish =>
    obtain ⟨e, filter, clause, rfl, -, -, htakes, -⟩ := fulfil_ok h
    exact ⟨.cons htakes .nil, List.Sublist.refl _, rfl⟩

/-! ## The loops -/

theorem readyGrants_spec {ready : List Waiting} {bound : Bindings} {res : Except TaskFault Bindings}
    (h : (bindReady store ready bound).run r = (res, r')) :
    Leads r.pools (readyGrants store ready r) r'.pools ∧
      ((readyGrants store ready r).map Grant.asked).Sublist ready ∧
      ∀ bound', res = .ok bound' →
        entitiesIn bound' = entitiesIn bound ++ (readyGrants store ready r).map Grant.told := by
  induction ready generalizing bound r with
  | nil =>
    cases h
    exact ⟨.nil, List.nil_sublist _, fun bound' e => by cases e; simp [readyGrants]⟩
  | cons w rest ih =>
    obtain ⟨g, d⟩ := w
    rw [readyGrants]
    rcases hf : (fulfil store g.clauses d).run r with ⟨f | shown, r₁⟩
    · have hrun := run_bind_error (f := fun shown => bindReady store rest (bound ++ [(g.keycode, shown)])) hf
      rw [bindReady, hrun] at h
      cases h
      refine ⟨?_, List.nil_sublist _, fun bound' e => by cases e⟩
      rw [fulfil_error hf]
      exact .nil
    · have hrun := run_bind_ok (f := fun shown => bindReady store rest (bound ++ [(g.keycode, shown)])) hf
      rw [bindReady, hrun] at h
      obtain ⟨hleads, hasked, htold⟩ := fulfil_grant (g := g) hf
      obtain ⟨hleads', hasked', htold'⟩ := ih h
      dsimp only
      refine ⟨hleads.append hleads', ?_, fun bound' e => ?_⟩
      · rw [List.map_append]
        exact hasked.append hasked'
      · rw [htold' bound' e, entitiesIn_append, htold, List.map_append, List.append_assoc]

theorem waitingGrants_spec {waiting : List Waiting} {bound : Bindings}
    {res : Except TaskFault (Bindings × List Waiting)} (h : (bindWaiting store waiting bound).run r = (res, r')) :
    Leads r.pools (waitingGrants store waiting bound r) r'.pools ∧
      ((waitingGrants store waiting bound r).map Grant.asked).Subperm waiting ∧
      ∀ bound' left, res = .ok (bound', left) →
        entitiesIn bound' = entitiesIn bound ++ (waitingGrants store waiting bound r).map Grant.told ∧
        ((waitingGrants store waiting bound r).map Grant.asked ++ left).Subperm waiting := by
  induction waiting generalizing bound r res with
  | nil =>
    cases h
    refine ⟨.nil, List.nil_subperm, fun bound' left e => ?_⟩
    cases e
    exact ⟨by simp [waitingGrants], List.nil_subperm⟩
  | cons w rest ih =>
    obtain ⟨g, d⟩ := w
    rw [bindWaiting] at h
    rw [waitingGrants]
    rcases hc : g.clauses.mapM (substitute bound) with _ | clauses
    · rw [hc] at h
      rcases hrest : (bindWaiting store rest bound).run r with ⟨f | ⟨bound₁, more⟩, r₁⟩
      · rw [run_bind_error hrest] at h
        cases h
        obtain ⟨hleads, hasked, -⟩ := ih hrest
        exact ⟨hleads, hasked.cons_right _, fun bound' left e => by cases e⟩
      · rw [run_bind_ok hrest] at h
        cases h
        obtain ⟨hleads, hasked, hok⟩ := ih hrest
        refine ⟨hleads, hasked.cons_right _, fun bound' left e => ?_⟩
        cases e
        obtain ⟨htold, hleft⟩ := hok _ _ rfl
        exact ⟨htold, List.perm_middle.subperm_right.mpr ((List.subperm_cons _).mpr hleft)⟩
    · rw [hc] at h
      dsimp only at h ⊢
      rcases hf : (fulfil store clauses d).run r with ⟨f | shown, r₁⟩
      · rw [run_bind_error hf] at h
        cases h
        refine ⟨?_, List.nil_subperm, fun bound' left e => by cases e⟩
        rw [fulfil_error hf]
        exact .nil
      · rw [run_bind_ok hf] at h
        obtain ⟨hleads, hasked, htold⟩ := fulfil_grant (g := g) hf
        obtain ⟨hleads', hasked', hok⟩ := ih h
        refine ⟨hleads.append hleads', ?_, fun bound' left e => ?_⟩
        · rw [List.map_append]
          exact hasked.subperm.append hasked'
        · obtain ⟨htold', hleft⟩ := hok _ _ e
          rw [htold', entitiesIn_append, htold, List.map_append, List.map_append, List.append_assoc, List.append_assoc]
          exact ⟨rfl, hasked.subperm.append hleft⟩

theorem settleGrants_spec {most : Nat} {waiting : List Waiting} {bound : Bindings} {res : Except TaskFault Bindings}
    (h : (settle store most waiting bound).run r = (res, r')) :
    Leads r.pools (settleGrants store most waiting bound r) r'.pools ∧
      ((settleGrants store most waiting bound r).map Grant.asked).Subperm waiting ∧
      ∀ bound', res = .ok bound' →
        entitiesIn bound' = entitiesIn bound ++ (settleGrants store most waiting bound r).map Grant.told := by
  induction most generalizing waiting bound r res with
  | zero =>
    cases h
    exact ⟨.nil, List.nil_subperm, fun bound' e => by cases e; simp [settleGrants]⟩
  | succ most ih =>
    rw [settle] at h
    rw [settleGrants]
    by_cases hw : waiting.isEmpty = true
    · rw [if_pos hw] at h ⊢
      cases h
      exact ⟨.nil, List.nil_subperm, fun bound' e => by cases e; simp⟩
    · rw [if_neg hw] at h ⊢
      rcases hround : (bindWaiting store waiting bound).run r with ⟨f | ⟨bound₁, left⟩, r₁⟩
      · rw [run_bind_error hround] at h
        cases h
        obtain ⟨hleads, hasked, -⟩ := waitingGrants_spec hround
        dsimp only
        rw [List.append_nil]
        exact ⟨hleads, hasked, fun bound' e => by cases e⟩
      · rw [run_bind_ok hround] at h
        obtain ⟨hleads, hasked, hok⟩ := waitingGrants_spec hround
        obtain ⟨htold, hleft⟩ := hok _ _ rfl
        dsimp only at h ⊢
        by_cases hl : left.length = waiting.length
        · rw [if_pos hl] at h ⊢
          cases h
          rw [List.append_nil]
          refine ⟨hleads, hasked, fun bound' e => ?_⟩
          cases e
          exact htold
        · rw [if_neg hl] at h ⊢
          obtain ⟨hleads', hasked', htold'⟩ := ih h
          refine ⟨hleads.append hleads', ?_, fun bound' e => ?_⟩
          · rw [List.map_append]
            exact ((List.subperm_append_left _).mpr hasked').trans hleft
          · rw [htold' _ e, htold, List.map_append, List.append_assoc]

/-! ## The whole history -/

theorem entitiesIn_pronounsOf (bound : Bindings) (groups : List Group) (occurrences : List Occurrence) :
    entitiesIn (pronounsOf bound groups occurrences) = [] := by
  rw [entitiesIn, List.filterMap_eq_nil_iff]
  intro entry he
  obtain ⟨g, -, rfl⟩ := List.mem_map.mp he
  rfl

theorem ready_append_waiting (groups : List Group) : (readyOf groups ++ waitingOf groups).Perm (demandsOf groups) :=
  List.filter_append_perm _ _

theorem bindGrants_spec {groups : List Group} {occurrences : List Occurrence} {res : Except TaskFault Bindings}
    (h : (bindAll store groups occurrences).run r = (res, r')) :
    Leads r.pools (bindGrants store groups r) r'.pools ∧
      ((bindGrants store groups r).map Grant.asked).Subperm (demandsOf groups) ∧
      ∀ bound, res = .ok bound → entitiesIn bound = (bindGrants store groups r).map Grant.told := by
  rw [bindAll_eq] at h
  rw [bindGrants]
  rcases hready : (bindReady store (readyOf groups) []).run r with ⟨f | bound₀, r₀⟩
  · rw [run_bind_error hready] at h
    cases h
    obtain ⟨hleads, hasked, -⟩ := readyGrants_spec hready
    dsimp only
    rw [List.append_nil]
    exact ⟨hleads, hasked.subperm.trans (List.filter_sublist.subperm), fun bound e => by cases e⟩
  · rw [run_bind_ok hready] at h
    obtain ⟨hleads, hasked, htold⟩ := readyGrants_spec hready
    have hboth : ∀ gs : List Grant, (gs.map Grant.asked).Subperm (waitingOf groups) →
        ((readyGrants store (readyOf groups) r ++ gs).map Grant.asked).Subperm (demandsOf groups) := by
      intro gs hgs
      rw [List.map_append]
      exact (hasked.subperm.append hgs).trans (ready_append_waiting groups).subperm
    rcases hsettled : (settle store (waitingOf groups).length (waitingOf groups) bound₀).run r₀ with ⟨f | bound₁, r₁⟩
    · rw [run_bind_error hsettled] at h
      cases h
      obtain ⟨hleads', hasked', -⟩ := settleGrants_spec hsettled
      exact ⟨hleads.append hleads', hboth _ hasked', fun bound e => by cases e⟩
    · rw [run_bind_ok hsettled] at h
      cases h
      obtain ⟨hleads', hasked', htold'⟩ := settleGrants_spec hsettled
      refine ⟨hleads.append hleads', hboth _ hasked', fun bound e => ?_⟩
      cases e
      rw [entitiesIn_append, entitiesIn_pronounsOf, htold' _ rfl, htold _ rfl, List.map_append, List.append_nil]
      rfl

omit [RandomSource σ] in
theorem scanned_pools {sentence : Text} {res : Except TaskFault Found}
    (h : (scanned sentence).run r = (res, r')) : r'.pools = r.pools := by
  rw [scanned_eq] at h
  exact (congrArg (fun o => o.2.pools) h).symm

/-- A task comes from what was scanned and bound. -/
theorem task_ok {sentence : Text} {t : Task} (h : (task store sentence).run r = (.ok t, r')) :
    ∃ found r₁ bound, (scanned sentence).run r = (.ok found, r₁) ∧
      (bindAll store (Group.ofOccurrences found.all) found.all).run r₁ = (.ok bound, r') ∧
      t = ⟨weave (tokenOf store (Group.ofOccurrences found.all) bound) 0 sentence found.direct,
        assignments (Group.ofOccurrences found.all) bound, []⟩ := by
  obtain ⟨found, r₁, hscan, h⟩ := run_bind_eq_ok.mp h
  obtain ⟨bound, r₂, hbound, h⟩ := run_bind_eq_ok.mp h
  refine ⟨found, r₁, bound, hscan, ?_⟩
  by_cases hb : found.direct.any (namesBytes bound) = true
  · rw [if_pos hb] at h
    cases h
  · rw [if_neg hb] at h
    obtain ⟨rfl, rfl⟩ := run_pure_eq_ok.mp h
    exact ⟨hbound, rfl⟩

/-- The history of a sentence leads to where the work on it ends, in a task or in a fault. -/
theorem taskGrants_leads {sentence : Text} {res : Except TaskFault Task}
    (h : (task store sentence).run r = (res, r')) : Leads r.pools (taskGrants store sentence r) r'.pools := by
  rw [taskGrants]
  rcases hscan : (scanned sentence).run r with ⟨f | found, r₁⟩
  · rw [task, run_bind_error hscan] at h
    cases h
    rw [scanned_pools hscan]
    exact .nil
  · rw [task, run_bind_ok hscan] at h
    rw [← scanned_pools hscan]
    rcases hbound : (bindAll store (Group.ofOccurrences found.all) found.all).run r₁ with ⟨f | bound, r₂⟩
    · rw [run_bind_error hbound] at h
      cases h
      exact (bindGrants_spec hbound).1
    · rw [run_bind_ok hbound] at h
      have hsame : r' = r₂ := by
        by_cases hb : found.direct.any (namesBytes bound) = true
        · rw [if_pos hb] at h
          cases h
          rfl
        · rw [if_neg hb] at h
          cases h
          rfl
      rw [hsame]
      exact (bindGrants_spec hbound).1

/-- Each group draws at most once for a sentence, and none draws that does not ask for an
    entity. -/
theorem taskGrants_asked {sentence : Text} {found : Found} (h : (scanned sentence).run r = (.ok found, r')) :
    ((taskGrants store sentence r).map Grant.asked).Subperm (demandsOf (Group.ofOccurrences found.all)) := by
  rw [taskGrants, h]
  obtain ⟨res, r₂, hrun⟩ : ∃ res r₂, (bindAll store (Group.ofOccurrences found.all) found.all).run r' = (res, r₂) :=
    ⟨_, _, rfl⟩
  exact (bindGrants_spec hrun).2.1

/-! ## Several sentences -/

/-- The state after some sentences, whatever became of them. -/
def worked (store : Store) (sentences : List Text) (r : Resolver σ) : Resolver σ :=
  sentences.foldl (fun r sentence => ((task store sentence).run r).2) r

/-- The histories of some sentences, one after the other. -/
def histories (store : Store) : List Text → Resolver σ → List (List Grant)
  | [], _ => []
  | sentence :: rest, r => taskGrants store sentence r :: histories store rest ((task store sentence).run r).2

theorem histories_leads (store : Store) (sentences : List Text) (r : Resolver σ) :
    Leads r.pools (histories store sentences r).flatten (worked store sentences r).pools := by
  induction sentences generalizing r with
  | nil => exact .nil
  | cons sentence rest ih => exact (taskGrants_leads rfl).append (ih _)

end Resolver

end Errand
