/-
  Errand.Proofs.Task.Conservation — no entity is used twice and none is lost.

  At every point of the work on any sentences, in whatever order groups are bound and
  whatever work ends in a fault, a pool and the entities granted out of it make up the
  pool as it was filled (`Conserved.pools`). The entities of a store are all different, so
  two groups never get the same one (`Conserved.distinct`).

  Proved: `conserved`, for every store, tier, source of choices and list of sentences.
-/

import Errand.Proofs.Task.Constraints

namespace Errand

/-! ## What is granted out of one pool -/

/-- The entities granted in a domain. -/
def granted (d : Domain) (gs : List Grant) : List Entity := (gs.filter (·.domain = d)).map Grant.entity

theorem granted_cons (d : Domain) (g : Grant) (gs : List Grant) :
    granted d (g :: gs) = if g.domain = d then g.entity :: granted d gs else granted d gs := by
  by_cases h : g.domain = d <;> simp [granted, h]

theorem Pools.Takes.perm {p p' : Pools} {d : Domain} {e : Entity} (h : p.Takes d e p') (d' : Domain) :
    (if d = d' then e :: p'.get d' else p'.get d').Perm (p.get d') := by
  obtain ⟨front, back, hpool, rfl⟩ := h
  by_cases hd : d = d'
  · subst hd
    rw [if_pos rfl, Pools.get_set_same, hpool]
    exact List.perm_middle.symm
  · rw [if_neg hd, Pools.get_set_other p _ (Ne.symm hd)]

/-- What is in a pool at the end and what was granted out of it is what was in it. -/
theorem Leads.perm {p p' : Pools} {gs : List Grant} (h : Leads p gs p') (d : Domain) :
    (p'.get d ++ granted d gs).Perm (p.get d) := by
  induction h with
  | nil => rw [granted, List.filter_nil, List.map_nil, List.append_nil]
  | @cons p p' g gs ht _ ih =>
    have hfirst := ht.perm d
    rw [granted_cons]
    by_cases hd : g.domain = d
    · rw [if_pos hd] at hfirst ⊢
      exact List.perm_middle.trans ((ih.cons g.entity).trans hfirst)
    · rw [if_neg hd] at hfirst ⊢
      exact ih.trans hfirst

/-! ## The entities of a store are different -/

/-- The domain that an entity belongs to. -/
def Entity.domain : Entity → Domain
  | .room .. | .location .. => .place
  | .category .. => .category
  | .object .. => .object
  | .person .. => .person
  | .gesture .. => .gesture
  | .question .. => .question

namespace Store

theorem entitiesOf_nodup {α : Type} {make : Nat → α → Entity} (records : List α)
    (hplace : ∀ m n x y, make m x = make n y → m = n) : (entitiesOf make records).Nodup := by
  refine List.pairwise_iff_getElem.mpr fun i j hi hj hij e => ?_
  simp only [entitiesOf, List.getElem_mapIdx] at e
  have := hplace _ _ _ _ e
  omega

theorem domain_of_mem_entitiesOf {α : Type} (make : Nat → α → Entity) (records : List α) {d : Domain}
    (hd : ∀ n x, (make n x).domain = d) : ∀ e ∈ entitiesOf make records, e.domain = d := by
  intro e he
  obtain ⟨n, hn, rfl⟩ := List.mem_mapIdx.mp he
  exact hd _ _

theorem places_nodup (s : Store) : s.places.Nodup := by
  rw [places, List.nodup_append]
  refine ⟨entitiesOf_nodup _ fun m n x y e => ?_, entitiesOf_nodup _ fun m n x y e => ?_, fun a ha b hb e => ?_⟩
  · cases e
    rfl
  · cases e
    rfl
  · obtain ⟨m, _, rfl⟩ := List.mem_mapIdx.mp ha
    obtain ⟨n, _, rfl⟩ := List.mem_mapIdx.mp hb
    cases e

theorem entitiesOfDomain_nodup (s : Store) (d : Domain) : (s.entitiesOfDomain d).Nodup := by
  cases d with
  | place => exact s.places_nodup
  | category => exact entitiesOf_nodup _ fun m n x y e => by cases e; rfl
  | gesture => exact entitiesOf_nodup _ fun m n x y e => by cases e; rfl
  | person => exact entitiesOf_nodup _ fun m n x y e => by cases e; rfl
  | object => exact entitiesOf_nodup _ fun m n x y e => by cases e; rfl
  | question => exact entitiesOf_nodup _ fun m n x y e => by cases e; rfl

theorem domain_of_mem {s : Store} {d : Domain} {e : Entity} (h : e ∈ s.entitiesOfDomain d) : e.domain = d := by
  cases d with
  | place =>
    rcases List.mem_append.mp h with h | h
    · exact domain_of_mem_entitiesOf .room s.rooms (fun n x => rfl) e h
    · exact domain_of_mem_entitiesOf .location s.locations (fun n x => rfl) e h
  | category => exact domain_of_mem_entitiesOf .category s.categories (fun n x => rfl) e h
  | gesture => exact domain_of_mem_entitiesOf .gesture s.gestures (fun n x => rfl) e h
  | person => exact domain_of_mem_entitiesOf .person s.people (fun n x => rfl) e h
  | object => exact domain_of_mem_entitiesOf .object s.objects (fun n x => rfl) e h
  | question => exact domain_of_mem_entitiesOf .question s.questions (fun n x => rfl) e h

end Store

theorem Pools.ofStore_nodup (s : Store) (tier : Tier) (d : Domain) : ((ofStore s tier).get d).Nodup := by
  have hall := s.entitiesOfDomain_nodup d
  cases d with
  | place => exact hall
  | category => exact hall
  | person => exact hall
  | gesture => exact hall.filter _
  | object => exact hall.filter _
  | question => exact hall.filter _

/-- Grants out of pools of different entities are grants of different entities. -/
theorem entities_nodup {gs : List Grant} (hd : ∀ g ∈ gs, g.entity.domain = g.domain)
    (hn : ∀ d, (granted d gs).Nodup) : (gs.map Grant.entity).Nodup := by
  induction gs with
  | nil => exact List.nodup_nil
  | cons g gs ih =>
    have hrest : ∀ d, (granted d gs).Nodup := by
      intro d
      have := hn d
      rw [granted_cons] at this
      by_cases h : g.domain = d
      · rw [if_pos h] at this
        exact (List.nodup_cons.mp this).2
      · rwa [if_neg h] at this
    refine List.nodup_cons.mpr ⟨fun hm => ?_, ih (fun g' hg' => hd g' (List.mem_cons_of_mem _ hg')) hrest⟩
    obtain ⟨g', hg', e⟩ := List.mem_map.mp hm
    -- the same entity is of the same domain, and there it would be twice
    have hsame : g'.domain = g.domain := by
      rw [← hd g' (List.mem_cons_of_mem _ hg'), e, hd g List.mem_cons_self]
    have htwice := hn g.domain
    rw [granted_cons, if_pos rfl] at htwice
    refine (List.nodup_cons.mp htwice).1 (List.mem_map.mpr ⟨g', ?_, e⟩)
    exact List.mem_filter.mpr ⟨hg', decide_eq_true hsame⟩

namespace Resolver
variable {σ : Type} [RandomSource σ] {store : Store}

/-! ## One sentence -/

theorem demandsOf_keycodes_sublist (groups : List Group) :
    ((demandsOf groups).map (·.1.keycode)).Sublist (groups.map Group.keycode) := by
  induction groups with
  | nil => exact List.Sublist.refl _
  | cons g groups ih =>
    rcases hd : demand? g with _ | d
    · have hskip : demandsOf (g :: groups) = demandsOf groups := by
        rw [demandsOf, List.filterMap_cons_none]
        · rfl
        · rw [hd]
          rfl
      rw [hskip]
      exact ih.cons _
    · have htake : demandsOf (g :: groups) = (g, d) :: demandsOf groups := by
        rw [demandsOf, List.filterMap_cons_some]
        · rfl
        · rw [hd]
          rfl
      rw [htake]
      exact ih.cons_cons _

/-- In one sentence each keycode gets at most one entity. -/
theorem taskGrants_keycodes_nodup (store : Store) (sentence : Text) (r : Resolver σ) :
    ((taskGrants store sentence r).map (·.group.keycode)).Nodup := by
  rcases hscan : (scanned sentence).run r with ⟨f | found, r₁⟩
  · rw [taskGrants, hscan]
    exact List.nodup_nil
  · have hdistinct := (Group.grouped_ofOccurrences found.all).distinct
    have hdemands := (demandsOf_keycodes_sublist (Group.ofOccurrences found.all)).nodup hdistinct
    obtain ⟨asked, hperm, hsub⟩ : List.Subperm _ _ := taskGrants_asked hscan
    have hnodup := (hperm.map (·.1.keycode)).nodup_iff.mp ((hsub.map _).nodup hdemands)
    rwa [List.map_map] at hnodup

theorem mem_entitiesIn {bound : Bindings} {k : Text} {e : Entity} :
    (k, e) ∈ entitiesIn bound ↔ (k, .entity e) ∈ bound := by
  rw [entitiesIn, List.mem_filterMap]
  constructor
  · rintro ⟨⟨k', shown⟩, hm, he⟩
    cases shown with
    | entity e' =>
      cases he
      exact hm
    | standIn s => cases he
  · intro hm
    exact ⟨_, hm, rfl⟩

/-- An occurrence is bound to what was granted to its group. -/
theorem lookup_eq_iff {sentence : Text} {r r₁ r₂ : Resolver σ} {found : Found} {bound : Bindings}
    (hscan : (scanned sentence).run r = (.ok found, r₁))
    (hbound : (bindAll store (Group.ofOccurrences found.all) found.all).run r₁ = (.ok bound, r₂))
    {w : Occurrence} (hw : w ∈ found.all) {e : Entity} : bound.lookup w.keycode = some (.entity e) ↔
      ∃ g ∈ taskGrants store sentence r, w ∈ g.group.members ∧ g.entity = e := by
  have hgrouped := Group.grouped_ofOccurrences found.all
  have hgroup : ∀ g ∈ taskGrants store sentence r, g.group ∈ Group.ofOccurrences found.all ∧
      demand? g.group = some (.entity g.wish) := by
    intro g hg
    exact mem_demandsOf.mp ((taskGrants_asked hscan).subset (List.mem_map_of_mem hg))
  have htold : entitiesIn bound = (taskGrants store sentence r).map Grant.told := by
    rw [taskGrants, hscan]
    exact (bindGrants_spec hbound).2.2 bound rfl
  constructor
  · intro h
    have hm := mem_entitiesIn.mpr (mem_of_lookup h)
    rw [htold] at hm
    obtain ⟨g, hg, he⟩ := List.mem_map.mp hm
    obtain ⟨g', hg', hmember⟩ := hgrouped.complete w hw
    have hkey : g'.keycode = g.group.keycode := by
      rw [← hgrouped.alike g' hg' w hmember]
      exact (congrArg Prod.fst he).symm
    rw [hgrouped.eq_of_keycode hg' (hgroup g hg).1 hkey] at hmember
    exact ⟨g, hg, hmember, congrArg Prod.snd he⟩
  · rintro ⟨g, hg, hmember, rfl⟩
    obtain ⟨hin, hdemand⟩ := hgroup g hg
    have hkey := hgrouped.alike _ hin w hmember
    have hm : (w.keycode, g.entity) ∈ entitiesIn bound := by
      rw [htold, hkey]
      exact List.mem_map_of_mem hg
    have hsome : (bound.lookup w.keycode).isSome = true :=
      isSome_lookup_iff.mpr (List.mem_map_of_mem (mem_entitiesIn.mp hm))
    obtain ⟨shown, hs⟩ := Option.isSome_iff_exists.mp hsome
    have hmet : Met store r₁.pools bound g.group (.entity g.wish) shown :=
      met_of_bindAll hgrouped (fun d e he => he) hbound hin hdemand (hkey ▸ hs)
    obtain ⟨e, filter, rfl, -⟩ := hmet
    -- the keycode was granted one entity only
    have hm' := mem_entitiesIn.mpr (mem_of_lookup hs)
    rw [htold] at hm'
    obtain ⟨g', hg', he⟩ := List.mem_map.mp hm'
    have hsame : g' = g := by
      refine List.inj_on_of_nodup_map (taskGrants_keycodes_nodup store sentence r) hg' hg ?_
      rw [← hkey]
      exact congrArg Prod.fst he
    rw [hs, ← hsame]
    exact congrArg (fun x => some (Shown.entity x)) (congrArg Prod.snd he).symm

/-! ## Any sentences -/

theorem histories_append (store : Store) (earlier : List Text) (sentence : Text) (later : List Text) (r : Resolver σ) :
    taskGrants store sentence (worked store earlier r) ∈ histories store (earlier ++ sentence :: later) r := by
  induction earlier generalizing r with
  | nil => exact List.mem_cons_self
  | cons first earlier ih => exact List.mem_cons_of_mem _ (ih _)

theorem keycodes_nodup_of_mem {sentences : List Text} {r : Resolver σ} {call : List Grant}
    (h : call ∈ histories store sentences r) : (call.map (·.group.keycode)).Nodup := by
  induction sentences generalizing r with
  | nil => cases h
  | cons sentence rest ih =>
    rcases List.mem_cons.mp h with rfl | h
    · exact taskGrants_keycodes_nodup store sentence r
    · exact ih h

/-- Nothing is lost and nothing used twice in the work on some sentences that begins in a
    state. -/
structure Conserved (store : Store) (sentences : List Text) (first : Resolver σ) : Prop where
  /-- The histories end with the pools that the work leaves, after tasks and after faults. -/
  ends : poolsAfter first.pools (histories store sentences first).flatten = (worked store sentences first).pools
  /-- After any of the grants a pool and what was granted out of it make up the first pool. -/
  pools : ∀ gs, gs <+: (histories store sentences first).flatten → ∀ d,
    ((poolsAfter first.pools gs).get d ++ granted d gs).Perm (first.pools.get d)
  /-- No entity is granted twice, be it for one sentence or for several. -/
  distinct : ((histories store sentences first).flatten.map Grant.entity).Nodup
  /-- For one sentence each keycode is granted at most one entity. -/
  once : ∀ call ∈ histories store sentences first, (call.map (·.group.keycode)).Nodup
  /-- When groups of a sentence have been bound, each occurrence is bound to what was granted to
      its group. -/
  shared : ∀ earlier sentence later, sentences = earlier ++ sentence :: later →
    taskGrants store sentence (worked store earlier first) ∈ histories store sentences first ∧
    ∀ found r₁ bound r₂, (scanned sentence).run (worked store earlier first) = (.ok found, r₁) →
      (bindAll store (Group.ofOccurrences found.all) found.all).run r₁ = (.ok bound, r₂) →
      ∀ w ∈ found.all, ∀ e, bound.lookup w.keycode = some (.entity e) ↔
        ∃ g ∈ taskGrants store sentence (worked store earlier first), w ∈ g.group.members ∧ g.entity = e

theorem conserved (store : Store) (tier : Tier) (source : σ) (next : Int) (sentences : List Text) :
    Conserved store sentences (start store tier source next) := by
  have hleads := histories_leads store sentences (start store tier source next)
  have hfilled := start_pools_perm store tier source next
  refine ⟨hleads.poolsAfter_eq, fun gs hgs d => ?_, ?_, fun call hcall => keycodes_nodup_of_mem hcall, ?_⟩
  · obtain ⟨more, hmore⟩ := hgs
    rw [← hmore] at hleads
    exact hleads.of_append.perm d
  · refine entities_nodup (fun g hg => ?_) (fun d => ?_)
    · have hm := (hfilled g.domain).subset (hleads.mem.2 g hg)
      exact Store.domain_of_mem (Pools.mem_ofStore hm).1
    · have hnodup := ((hleads.perm d).trans (hfilled d)).nodup_iff.mpr (Pools.ofStore_nodup store tier d)
      exact (List.nodup_append.mp hnodup).2.1
  · rintro earlier sentence later rfl
    refine ⟨histories_append store earlier sentence later _, fun found r₁ bound r₂ hscan hbound w hw e => ?_⟩
    exact lookup_eq_iff hscan hbound hw

end Resolver

end Errand
