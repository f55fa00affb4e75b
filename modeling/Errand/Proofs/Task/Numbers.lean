/-
  Errand.Proofs.Task.Numbers — the numbers of tasks that follow one another.

  Only the scan of a sentence takes automatic numbers: nothing that is done with what it
  found does (`bindAll_keeps_next`). So a request to the source uses the numbers from one
  state of the counter up to another, the failed attempts included, and what its task
  assigns has one of these or a written one (`request_assigns`). The requests that follow
  begin where it ended.
-/

import Errand.Proofs.Task.History
import Errand.Proofs.Wildcard.Identity
import Errand.Task.Source

namespace Errand

namespace Resolver
variable {σ : Type} [RandomSource σ] (store : Store)

/-! ## Binding takes no numbers -/

theorem chooseFilter_keeps_next (wish : Wish) (clause : Option Where.Clause) :
    Retains Resolver.next (chooseFilter (σ := σ) store wish clause) := by
  cases wish with
  | whole d => exact retains_pure _
  | only d f => exact retains_pure _
  | drawn d filters =>
    refine Retains.of_get ?_
    intro r
    rcases r.pools.available store d clause filters with f | _ | ⟨first, more⟩
    · rfl
    · rfl
    · rfl

omit [RandomSource σ] in
theorem draw_keeps_next (d : Domain) (filter : Option Filter) (clause : Option Where.Clause) :
    Retains Resolver.next (draw (σ := σ) store d filter clause) := by
  refine Retains.of_get ?_
  intro r
  rcases r.pools.take store d filter clause with f | _ | ⟨e, pools⟩
  · rfl
  · rfl
  · rfl

theorem fulfil_keeps_next (clauses : List Text) (d : Demand) :
    Retains Resolver.next (fulfil (σ := σ) store clauses d) := by
  cases d with
  | nothing => exact retains_pure _
  | entity wish =>
    have hread : Retains Resolver.next (ExceptT.mk (pure (joinedClause clauses)) : Resolving σ _) := fun _ => rfl
    refine hread.bind fun clause => (chooseFilter_keeps_next store wish clause).bind ?_
    intro filter
    exact (draw_keeps_next store wish.domain filter clause).bind fun e => retains_pure _

theorem bindReady_keeps_next (ready : List Waiting) (bound : Bindings) :
    Retains Resolver.next (bindReady (σ := σ) store ready bound) := by
  induction ready generalizing bound with
  | nil => exact retains_pure _
  | cons w rest ih => exact (fulfil_keeps_next store w.1.clauses w.2).bind fun shown => ih _

theorem bindWaiting_keeps_next (waiting : List Waiting) (bound : Bindings) :
    Retains Resolver.next (bindWaiting (σ := σ) store waiting bound) := by
  induction waiting generalizing bound with
  | nil => exact retains_pure _
  | cons w rest ih =>
    obtain ⟨g, d⟩ := w
    rw [bindWaiting]
    rcases g.clauses.mapM (substitute bound) with _ | clauses
    · exact (ih bound).bind fun _ => retains_pure _
    · exact (fulfil_keeps_next store clauses d).bind fun shown => ih _

theorem settle_keeps_next (most : Nat) (waiting : List Waiting) (bound : Bindings) :
    Retains Resolver.next (settle (σ := σ) store most waiting bound) := by
  induction most generalizing waiting bound with
  | zero => exact retains_pure _
  | succ most ih =>
    rw [settle]
    by_cases hempty : waiting.isEmpty = true
    · rw [if_pos hempty]
      exact retains_pure _
    · rw [if_neg hempty]
      refine (bindWaiting_keeps_next store waiting bound).bind ?_
      rintro ⟨bound, left⟩
      by_cases hstuck : left.length = waiting.length
      · have hwarn : Retains Resolver.next (warnUnbound (σ := σ) left) := fun _ => rfl
        simp only [if_pos hstuck]
        exact hwarn.bind fun _ => retains_pure _
      · simp only [if_neg hstuck]
        exact ih left bound

theorem bindAll_keeps_next (groups : List Group) (occurrences : List Occurrence) :
    Retains Resolver.next (bindAll (σ := σ) store groups occurrences) := by
  rw [bindAll_eq]
  exact (bindReady_keeps_next store _ []).bind fun bound => (settle_keeps_next store _ _ bound).bind fun _ =>
    retains_pure _

/-! ## A sentence takes those of its scan -/

theorem task_next {sentence : Text} {res : Except TaskFault Task} {r r' : Resolver σ}
    (h : (task store sentence).run r = (res, r')) : r'.next = ((scan sentence).run r.next).2 := by
  rcases hscan : (scanned sentence).run r with ⟨f | found, r₁⟩
  · rw [task, run_bind_error hscan] at h
    cases h
    rw [scanned_eq] at hscan
    exact (congrArg (fun o => o.2.next) hscan).symm
  · rw [task, run_bind_ok hscan] at h
    have hrest : Retains Resolver.next (do
        let bound ← bindAll (σ := σ) store (Group.ofOccurrences found.all) found.all
        if found.direct.any (namesBytes bound) then throw TaskFault.unwritableName
        return {
          tokens := weave (tokenOf store (Group.ofOccurrences found.all) bound) 0 sentence found.direct
          assignments := assignments (Group.ofOccurrences found.all) bound
          grammar := [] : Task }) := by
      refine (bindAll_keeps_next store _ _).bind ?_
      intro bound
      split
      · exact (retains_throw _).bind fun _ => retains_pure _
      · exact retains_pure _
    rw [hrest.eq h]
    rw [scanned_eq] at hscan
    exact (congrArg (fun o => o.2.next) hscan).symm

/-- A task comes from what its sentence is scanned as, and the scan takes all numbers that are taken. -/
theorem task_scanned {sentence : Text} {t : Task} {r r' : Resolver σ} (h : (task store sentence).run r = (.ok t, r')) :
    ∃ (found : Found) (r₁ : Resolver σ) (bound : Bindings), (scan sentence).run r.next = (.ok found, r'.next) ∧
      (bindAll store (Group.ofOccurrences found.all) found.all).run r₁ = (.ok bound, r') ∧
      t = ⟨weave (tokenOf store (Group.ofOccurrences found.all) bound) 0 sentence found.direct,
        assignments (Group.ofOccurrences found.all) bound, []⟩ := by
  have hnext := task_next store h
  obtain ⟨found, r₁, bound, hscanned, hbound, ht⟩ := task_ok h
  obtain ⟨next, hscan, -⟩ := scanned_eq_ok_iff.mp hscanned
  rw [hscan] at hnext
  exact ⟨found, r₁, bound, hnext ▸ hscan, hbound, ht⟩

/-- What a task assigns is found in its sentence. -/
theorem task_keycodes {sentence : Text} {t : Task} {r r' : Resolver σ}
    (h : (task store sentence).run r = (.ok t, r')) : ∃ found, (scan sentence).run r.next = (.ok found, r'.next) ∧
      ∀ k ∈ t.assignments.map Prod.fst, ∃ w ∈ found.all, w.keycode = k := by
  obtain ⟨found, r₁, bound, hscan, -, rfl⟩ := task_scanned store h
  refine ⟨found, hscan, ?_⟩
  intro k hk
  obtain ⟨a, ha, rfl⟩ := List.mem_map.mp hk
  obtain ⟨g, hg, he⟩ := List.mem_filterMap.mp ha
  obtain ⟨shown, -, rfl⟩ := Option.map_eq_some_iff.mp he
  refine ⟨g.first, ?_, rfl⟩
  exact (Group.grouped_ofOccurrences found.all).sound g (List.mem_filter.mp hg).1 _ List.mem_cons_self

end Resolver

/-! ## Keycodes out of a stretch of numbers -/

/-- A keycode with a written number. -/
def IsWritten (k : Text) : Prop := ∃ name, Small name ∧ ∃ n < firstAutomatic, k = keycode name n

/-- A keycode with a written number or an automatic one from `low` up to `high`. -/
def Within (low high : Int) (k : Text) : Prop :=
  ∃ name, Small name ∧ ∃ n : Nat, k = keycode name n ∧ (n < firstAutomatic ∨ low ≤ n ∧ (n : Int) < high)

theorem Within.mono {low low' high high' : Int} {k : Text} (h : Within low high k) (hlow : low' ≤ low)
    (hhigh : high ≤ high') : Within low' high' k := by
  obtain ⟨name, hname, n, hk, hn⟩ := h
  exact ⟨name, hname, n, hk, by omega⟩

/-- Of two stretches without a number in common each keycode is written. -/
theorem Within.isWritten {low middle middle' high : Int} {k : Text} (h : Within low middle k)
    (h' : Within middle' high k) (hle : middle ≤ middle') : IsWritten k := by
  obtain ⟨name, hname, n, hk, hn⟩ := h
  obtain ⟨name', hname', n', hk', hn'⟩ := h'
  obtain ⟨-, rfl⟩ := (keycode_inj hname hname').mp (hk.symm.trans hk')
  exact ⟨name, hname, n, by omega, hk⟩

theorem within_of_scan {t : Text} {next next' : Int} {found : Found} (hnext : (firstAutomatic : Int) ≤ next)
    (h : (scan t).run next = (.ok found, next')) : ∀ w ∈ found.all, Within next next' w.keycode := by
  have hproper := Markup.markers_proper .sentence 0 t
  have hend : next' = nextAfter next (Markup.read .sentence 0 t).markers := by
    rw [← scan_next, h]
  intro w hw
  have hkey : w.keycode ∈ (registered next (Markup.read .sentence 0 t).markers).map Registered.keycode := by
    have hkeys := congrArg (List.map Prod.fst) (Registered.keys_eq (scan_gives h))
    simp only [List.map_map, Function.comp_def] at hkeys
    rw [← hkeys]
    exact List.mem_map_of_mem hw
  obtain ⟨r, hr, hrw⟩ := List.mem_map.mp hkey
  obtain ⟨hr₀, -⟩ := registered_number hproper hnext hr
  obtain ⟨n, hn⟩ := Int.eq_ofNat_of_zero_le hr₀
  obtain ⟨hp, hcases⟩ := registered_cases hproper r hr
  refine ⟨r.marker.name, hp.small, n, ?_, ?_⟩
  · rw [← hrw, Registered.keycode, hn]
  · rcases hcases with ⟨k, hk, -, hnumber⟩ | ⟨-, hlow, hhigh⟩
    · omega
    · omega

namespace TaskSource
variable {σ : Type} [RandomSource σ]

/-! ## One request -/

theorem chooseAmong_next (tiers : List Tier) (g : TaskSource σ) : ((chooseAmong tiers).run g).2.next = g.next := by
  induction tiers generalizing g with
  | nil => rfl
  | cons tier rest ih =>
    rw [chooseAmong, run_bind_state]
    split
    · rfl
    · exact ih _

theorem select_next (tier : Tier) (name : Option Text) (g : TaskSource σ) :
    ((select tier name).run g).2.next = g.next := by
  rw [select]
  split
  · rw [run_bind_state]
    split
    · rfl
    · rfl
  · rw [run_bind_state]
    have hchosen := chooseAmong_next (tiers.filter (· ≤ tier)) g
    split
    · exact hchosen
    · exact hchosen

theorem sentence_next (grammar : Grammar) : Retains TaskSource.next (sentence (σ := σ) grammar) := by
  refine Retains.of_get ?_
  intro g
  rcases (Sentence.draw grammar.rules).run g.random with ⟨f | t, random⟩
  · rfl
  · rfl

/-- The keycodes that a task assigns something to. -/
def keycodesOf (t : Task) : List Text := t.assignments.map Prod.fst

/-- Work that uses the numbers between the counter before it and the counter behind it, and
    what a task that comes of it may assign. -/
def Assigns (g g' : TaskSource σ) (t? : Option Task) : Prop :=
  g.next ≤ g'.next ∧ ∀ t ∈ t?, ∀ k ∈ keycodesOf t, Within g.next g'.next k

omit [RandomSource σ] in
theorem Assigns.after {g g₁ g' : TaskSource σ} {t? : Option Task} (h : Assigns g₁ g' t?) (hle : g.next ≤ g₁.next) :
    Assigns g g' t? :=
  ⟨Int.le_trans hle h.1, fun t ht k hk => (h.2 t ht k hk).mono hle (Int.le_refl _)⟩

omit [RandomSource σ] in
/-- Without a task nothing is assigned. -/
theorem assigns_none {g g' : TaskSource σ} (hle : g.next ≤ g'.next) : Assigns g g' none :=
  ⟨hle, fun t ht => by cases ht⟩

theorem taskOf_eq (tier : Tier) (sentence : Text) (g : TaskSource σ) : (taskOf tier sentence).run g =
    let (outcome, r) := (Resolver.task g.store sentence).run (Resolver.start g.store tier g.random g.next)
    (outcome.mapError .task, { g with random := r.source, next := r.next, log := g.log ++ r.log }) := by
  rw [taskOf, run_bind_get]
  rcases (Resolver.task g.store sentence).run (Resolver.start g.store tier g.random g.next) with ⟨f | t, r⟩
  · rfl
  · rfl

theorem taskOf_assigns {tier : Tier} {sentence : Text} {res : Except Fault Task} {g g' : TaskSource σ}
    (hg : (firstAutomatic : Int) ≤ g.next) (h : (taskOf tier sentence).run g = (res, g')) :
    Assigns g g' res.toOption := by
  rw [taskOf_eq] at h
  rcases hrun : (Resolver.task g.store sentence).run (Resolver.start g.store tier g.random g.next) with ⟨res', r⟩
  rw [hrun] at h
  cases h
  have hle : g.next ≤ r.next := by
    rw [Resolver.task_next g.store hrun, scan_next]
    exact le_nextAfter _ _
  rcases res' with f | t
  · exact assigns_none hle
  · obtain ⟨found, hscan, hkeys⟩ := Resolver.task_keycodes g.store hrun
    refine ⟨hle, ?_⟩
    intro t' ht k hk
    cases ht
    obtain ⟨w, hw, rfl⟩ := hkeys k hk
    exact within_of_scan hg hscan w hw

theorem attempt_assigns {tier : Tier} {grammar : Grammar} {res : Except Fault Task} {g g' : TaskSource σ}
    (hg : (firstAutomatic : Int) ≤ g.next) (h : (attempt tier grammar).run g = (res, g')) :
    Assigns g g' res.toOption := by
  rcases hs : (sentence grammar).run g with ⟨f | text, g₁⟩
  · rw [attempt, run_bind_error hs] at h
    cases h
    exact assigns_none (Int.le_of_eq ((sentence_next grammar).eq hs).symm)
  rw [attempt, run_bind_ok hs] at h
  have hnext := (sentence_next grammar).eq hs
  rw [← hnext] at hg
  rcases ht : (taskOf tier text).run g₁ with ⟨f | t, g₂⟩
  · rw [run_bind_error ht] at h
    cases h
    exact (taskOf_assigns hg ht).after (Int.le_of_eq hnext.symm)
  · rw [run_bind_ok ht] at h
    cases h
    obtain ⟨hle, hkeys⟩ := (taskOf_assigns hg ht).after (Int.le_of_eq hnext.symm)
    refine ⟨hle, ?_⟩
    intro t' ht'
    cases ht'
    exact hkeys t rfl

/-- A request uses the numbers from one state of the counter to another, whatever comes of
    its attempts. -/
theorem tryTask_assigns {tier : Tier} {name : Option Text} {left : Nat} {res : Except Fault (Option Task)}
    {g g' : TaskSource σ} (hg : (firstAutomatic : Int) ≤ g.next) (h : (tryTask tier name left).run g = (res, g')) :
    Assigns g g' (res.toOption.bind id) := by
  induction left generalizing g with
  | zero =>
    cases h
    exact assigns_none (Int.le_refl _)
  | succ left ih =>
    rw [tryTask, run_bind_ok run_lift] at h
    have hselect := select_next tier name g
    generalize (select tier name).run g = chosen at h hselect
    obtain ⟨_ | grammar, g₁⟩ := chosen
    · cases h
      exact assigns_none (Int.le_of_eq hselect.symm)
    dsimp only at h hselect
    rw [← hselect] at hg
    rw [run_bind_ok run_lift] at h
    rcases ha : StateT.run (attempt tier grammar).run g₁ with ⟨f | t, g₂⟩
    · rw [ha] at h
      have hle := (attempt_assigns hg ha).1
      by_cases hf : f.isOrdinary = true
      · simp only [if_pos hf] at h
        rw [run_bind_ok run_lift] at h
        -- the warning that is noted between two attempts takes no number either
        refine (ih ?_ h).after ?_
        · exact Int.le_trans hg hle
        · exact Int.le_trans (Int.le_of_eq hselect.symm) hle
      · simp only [if_neg hf] at h
        cases h
        exact assigns_none (Int.le_trans (Int.le_of_eq hselect.symm) hle)
    · rw [ha] at h
      cases h
      exact (attempt_assigns hg ha).after (Int.le_of_eq hselect.symm)

theorem request_assigns {tier : Tier} {name : Option Text} {res : Except Fault (Option Task)} {g g' : TaskSource σ}
    (hg : (firstAutomatic : Int) ≤ g.next) (h : (task tier name).run g = (res, g')) :
    Assigns g g' (res.toOption.bind id) :=
  tryTask_assigns hg h

/-! ## Request after request -/

/-- The tasks that come of some requests, each for a tier and a grammar. -/
def tasks : List (Tier × Option Text) → TaskSource σ → List Task
  | [], _ => []
  | (tier, name) :: rest, g =>
    let (outcome, g') := (task tier name).run g
    (outcome.toOption.bind id).toList ++ tasks rest g'

theorem tasks_within {requests : List (Tier × Option Text)} {g : TaskSource σ}
    (hg : (firstAutomatic : Int) ≤ g.next) :
    ∀ t ∈ tasks requests g, ∀ k ∈ keycodesOf t, ∃ high, Within g.next high k := by
  induction requests generalizing g with
  | nil =>
    intro t ht
    cases ht
  | cons request rest ih =>
    intro t ht k hk
    rcases h : (task request.1 request.2).run g with ⟨res, g'⟩
    obtain ⟨hle, hkeys⟩ := request_assigns hg h
    rw [tasks, h] at ht
    rcases List.mem_append.mp ht with ht | ht
    · exact ⟨g'.next, hkeys t (Option.mem_toList.mp ht) k hk⟩
    · obtain ⟨high, hwithin⟩ := ih (Int.le_trans hg hle) t ht k hk
      exact ⟨high, hwithin.mono hle (Int.le_refl _)⟩

/-- Two tasks have a keycode in common only if the author wrote it. -/
theorem tasks_pairwise {requests : List (Tier × Option Text)} {g : TaskSource σ}
    (hg : (firstAutomatic : Int) ≤ g.next) :
    (tasks requests g).Pairwise fun t t' => ∀ k ∈ keycodesOf t, k ∈ keycodesOf t' → IsWritten k := by
  induction requests generalizing g with
  | nil => exact .nil
  | cons request rest ih =>
    rcases h : (task request.1 request.2).run g with ⟨res, g'⟩
    obtain ⟨hle, hkeys⟩ := request_assigns hg h
    have hg' := Int.le_trans hg hle
    rw [tasks, h]
    refine List.pairwise_append.mpr ⟨?_, ih hg', fun t ht t' ht' k hk hk' => ?_⟩
    · rcases res.toOption.bind id with _ | t
      · exact .nil
      · exact List.pairwise_singleton _ _
    · obtain ⟨high, hlater⟩ := tasks_within hg' t' ht' k hk'
      exact (hkeys t (Option.mem_toList.mp ht) k hk).isWritten hlater (Int.le_refl _)

end TaskSource

/-- Keycodes identify what the author identified, in all texts that are scanned with one
    counter; and what is automatic in a task is in no later one of the same source. -/
theorem keycodes_identify :
    (∀ texts, Identified firstAutomatic texts) ∧
    ∀ {σ : Type} [RandomSource σ] (grammars : List Grammar) (store : Store) (random : σ)
      (requests : List (Tier × Option Text)),
      (TaskSource.tasks requests (TaskSource.start grammars store random)).Pairwise fun t t' =>
        ∀ k ∈ TaskSource.keycodesOf t, k ∈ TaskSource.keycodesOf t' → IsWritten k :=
  ⟨identified_from (Int.le_refl _), fun _ _ _ _ => TaskSource.tasks_pairwise (Int.le_refl _)⟩

end Errand
