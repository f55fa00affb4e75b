/-
  Errand.Proofs.Task.Taking — what one group takes out of the pools.

  A group that is bound to an entity takes it out of the pool of its domain and leaves all
  other pools as they are (`Pools.Takes`). The entity is of a kind that the wish of the group
  allows and the joined clauses hold of it (`fulfil_ok`). A group that cannot be bound
  leaves the pools alone (`fulfil_error`).
-/

import Errand.Proofs.Run
import Errand.Task.Resolver

namespace Errand

/-! ## One out of a list -/

section
variable {α ε : Type}

theorem takeFirst_eq {test : α → Except ε Bool} {l others : List α} {x : α}
    (h : takeFirst test l = .ok (some (x, others))) :
    test x = .ok true ∧ ∃ front back, l = front ++ x :: back ∧ others = front ++ back := by
  induction l generalizing others with
  | nil => cases h
  | cons y rest ih =>
    rw [takeFirst] at h
    rcases hy : test y with f | b
    · rw [hy] at h
      cases h
    · cases b with
      | true =>
        rw [hy] at h
        cases h
        exact ⟨hy, [], rest, rfl, rfl⟩
      | false =>
        rw [hy] at h
        rcases hr : takeFirst test rest with f | found
        · rw [hr] at h
          cases h
        · rw [hr] at h
          rcases found with _ | ⟨z, left⟩
          · cases h
          · cases h
            obtain ⟨hx, front, back, rfl, rfl⟩ := ih hr
            exact ⟨hx, y :: front, back, rfl, rfl⟩

theorem takeLast_eq {l others : List α} {x : α} (h : takeLast l = some (x, others)) : l = others ++ [x] := by
  obtain ⟨y, hy, he⟩ := Option.map_eq_some_iff.mp h
  cases he
  obtain ⟨front, rfl⟩ := List.getLast?_eq_some_iff.mp hy
  rw [List.dropLast_concat]

end

namespace Pools

/-- One entity is taken out of the pool of a domain; all else stays as it is. -/
def Takes (p : Pools) (d : Domain) (e : Entity) (p' : Pools) : Prop :=
  ∃ front back, p.get d = front ++ e :: back ∧ p' = p.set d (front ++ back)

theorem Takes.mem {p p' : Pools} {d : Domain} {e : Entity} (h : p.Takes d e p') :
    (∀ d', ∀ x ∈ p'.get d', x ∈ p.get d') ∧ e ∈ p.get d := by
  obtain ⟨front, back, hpool, rfl⟩ := h
  refine ⟨fun d' x hx => ?_, ?_⟩
  · by_cases hd : d' = d
    · subst hd
      rw [get_set_same] at hx
      rw [hpool]
      exact List.sublist_cons_self e back |>.append_left front |>.subset hx
    · rwa [get_set_other p _ hd] at hx
  · rw [hpool]
    exact List.mem_append_right _ List.mem_cons_self

/-- An entity is of a kind and fulfils a clause, as far as they are asked for. -/
def Fits (s : Store) (filter : Option Filter) (clause : Option Where.Clause) (e : Entity) : Prop :=
  (∀ f ∈ filter, f.admits e = true) ∧ ∀ c ∈ clause, c.holds (some (s.property e)) = .ok true

theorem fits_of_admits {s : Store} {filter : Option Filter} {clause : Option Where.Clause} {e : Entity}
    (h : s.admits filter clause e = .ok true) : Fits s filter clause e := by
  unfold Store.admits at h
  split at h
  · rename_i hf
    refine ⟨fun f hm => ?_, fun c hm => ?_⟩
    · cases hm
      exact hf
    · cases hm
      exact h
  · cases h

/-- The pools without the entity that was found in one of them. -/
def without (p : Pools) (d : Domain) (found : Option (Entity × List Entity)) : Option (Entity × Pools) :=
  found.map fun (e, others) => (e, p.set d others)

theorem take_last (p : Pools) (s : Store) (d : Domain) :
    p.take s d none none = .ok (p.without d (takeLast (p.get d))) := by
  unfold take without
  rcases takeLast (p.get d) with _ | ⟨e, others⟩ <;> rfl

theorem take_first (p : Pools) (s : Store) (d : Domain) {filter : Option Filter} {clause : Option Where.Clause}
    (h : ¬(filter = none ∧ clause = none)) :
    p.take s d filter clause = (takeFirst (s.admits filter clause) (p.get d)).map (p.without d) := by
  rcases filter with _ | f
  · rcases clause with _ | c
    · exact absurd ⟨rfl, rfl⟩ h
    · simp only [take]
      rcases takeFirst (s.admits none (some c)) (p.get d) with f | _ | ⟨e, others⟩ <;> rfl
  · simp only [take]
    rcases takeFirst (s.admits (some f) clause) (p.get d) with f | _ | ⟨e, others⟩ <;> rfl

theorem take_eq {p p' : Pools} {s : Store} {d : Domain} {filter : Option Filter} {clause : Option Where.Clause}
    {e : Entity} (h : p.take s d filter clause = .ok (some (e, p'))) : p.Takes d e p' ∧ Fits s filter clause e := by
  by_cases hnone : filter = none ∧ clause = none
  · obtain ⟨rfl, rfl⟩ := hnone
    rw [take_last] at h
    obtain ⟨⟨x, others⟩, hx, he⟩ := Option.map_eq_some_iff.mp (Except.ok.inj h)
    cases he
    refine ⟨⟨others, [], takeLast_eq hx, by rw [List.append_nil]⟩, fun f hf => ?_, fun c hc => ?_⟩
    · cases hf
    · cases hc
  · rw [take_first p s d hnone] at h
    rcases ht : takeFirst (s.admits filter clause) (p.get d) with f | _ | ⟨x, others⟩
    · rw [ht] at h
      cases h
    · rw [ht] at h
      cases h
    · rw [ht] at h
      cases h
      obtain ⟨hadmits, front, back, hpool, rfl⟩ := takeFirst_eq ht
      exact ⟨⟨front, back, hpool, rfl⟩, fits_of_admits hadmits⟩

end Pools

/-! ## Wishes -/

/-- The kinds of entity that a wish allows to be drawn. -/
def Wish.Chooses : Wish → Option Filter → Prop
  | .whole _, filter => filter = none
  | .only _ f, filter => filter = some f
  | .drawn _ fs, filter => ∃ f ∈ fs, filter = some f

theorem Pools.available_subset {p : Pools} {s : Store} {d : Domain} {clause : Option Where.Clause}
    {fs there : List Filter} (h : p.available s d clause fs = .ok there) : there ⊆ fs := by
  induction fs generalizing there with
  | nil =>
    cases h
    exact fun _ hf => hf
  | cons f fs ih =>
    rw [available] at h
    rcases hex : existsIn (s.admits (some f) clause) (p.get d) with fault | found
    · rw [hex] at h
      cases h
    · rw [hex] at h
      rcases hrest : p.available s d clause fs with fault | later
      · rw [hrest] at h
        cases h
      · rw [hrest] at h
        cases h
        cases found with
        | true => exact List.cons_subset_cons f (ih hrest)
        | false => exact List.subset_cons_of_subset f (ih hrest)

namespace Resolver
variable {σ : Type} [RandomSource σ] {store : Store} {r r' : Resolver σ}

omit [RandomSource σ] in
theorem run_result {α : Type} (x : Except TaskFault α) (r : Resolver σ) :
    (ExceptT.mk (pure x) : Resolving σ α).run r = (x, r) := rfl

/-- Choosing a kind leaves the pools alone. -/
theorem chooseFilter_eq {wish : Wish} {clause : Option Where.Clause} {res : Except TaskFault (Option Filter)}
    (h : (chooseFilter store wish clause).run r = (res, r')) :
    r'.pools = r.pools ∧ ∀ filter, res = .ok filter → wish.Chooses filter := by
  cases wish with
  | whole d =>
    cases h
    exact ⟨rfl, fun filter e => by cases e; rfl⟩
  | only d f =>
    cases h
    exact ⟨rfl, fun filter e => by cases e; rfl⟩
  | drawn d fs =>
    rw [chooseFilter, run_bind_get] at h
    rcases ha : r.pools.available store d clause fs with f | _ | ⟨first, more⟩
    · rw [ha] at h
      cases h
      exact ⟨rfl, fun filter e => by cases e⟩
    · rw [ha] at h
      cases h
      exact ⟨rfl, fun filter e => by cases e⟩
    · rw [ha] at h
      cases h
      refine ⟨rfl, fun filter e => ?_⟩
      cases e
      exact ⟨_, Pools.available_subset ha (List.get_mem _ _), rfl⟩

omit [RandomSource σ] in
theorem draw_ok {d : Domain} {filter : Option Filter} {clause : Option Where.Clause} {e : Entity}
    (h : (draw store d filter clause).run r = (.ok e, r')) :
    r.pools.Takes d e r'.pools ∧ Pools.Fits store filter clause e := by
  rw [draw, run_bind_get] at h
  rcases ht : r.pools.take store d filter clause with f | _ | ⟨x, pools⟩
  · rw [ht] at h
    cases h
  · rw [ht] at h
    cases h
  · rw [ht] at h
    cases h
    exact Pools.take_eq ht

omit [RandomSource σ] in
theorem draw_error {d : Domain} {filter : Option Filter} {clause : Option Where.Clause} {f : TaskFault}
    (h : (draw store d filter clause).run r = (.error f, r')) : r'.pools = r.pools := by
  rw [draw, run_bind_get] at h
  rcases ht : r.pools.take store d filter clause with f | _ | ⟨x, pools⟩
  · rw [ht] at h
    cases h
    rfl
  · rw [ht] at h
    cases h
    rfl
  · rw [ht] at h
    cases h

theorem fulfil_nothing {clauses : List Text} {shown : Shown}
    (h : (fulfil store clauses .nothing).run r = (.ok shown, r')) : shown = .standIn .nothing ∧ r' = r := by
  cases h
  exact ⟨rfl, rfl⟩

/-- What a group that asks for an entity is bound to. -/
theorem fulfil_ok {clauses : List Text} {wish : Wish} {shown : Shown}
    (h : (fulfil store clauses (.entity wish)).run r = (.ok shown, r')) :
    ∃ e filter clause, shown = .entity e ∧ wish.Chooses filter ∧ joinedClause clauses = .ok clause ∧
      r.pools.Takes wish.domain e r'.pools ∧ Pools.Fits store filter clause e := by
  obtain ⟨clause, r₁, hclause, h⟩ := run_bind_eq_ok.mp h
  obtain ⟨filter, r₂, hfilter, h⟩ := run_bind_eq_ok.mp h
  obtain ⟨e, r₃, hdraw, h⟩ := run_bind_eq_ok.mp h
  obtain ⟨rfl, rfl⟩ := run_pure_eq_ok.mp h
  rw [run_result] at hclause
  obtain ⟨hjoined, rfl⟩ := Prod.mk.inj hclause
  obtain ⟨hpools, hchosen⟩ := chooseFilter_eq hfilter
  have htaken := draw_ok hdraw
  rw [hpools] at htaken
  exact ⟨e, filter, clause, rfl, hchosen _ rfl, hjoined, htaken⟩

/-- A group that cannot be bound takes nothing. -/
theorem fulfil_error {clauses : List Text} {d : Demand} {f : TaskFault}
    (h : (fulfil store clauses d).run r = (.error f, r')) : r'.pools = r.pools := by
  cases d with
  | nothing => cases h
  | entity wish =>
    rcases run_bind_eq_error.mp h with hclause | ⟨clause, r₁, hclause, h⟩
    · rw [run_result] at hclause
      rw [(Prod.mk.inj hclause).2]
    · rw [run_result] at hclause
      obtain ⟨-, rfl⟩ := Prod.mk.inj hclause
      rcases run_bind_eq_error.mp h with hfilter | ⟨filter, r₂, hfilter, h⟩
      · exact (chooseFilter_eq hfilter).1
      · rcases run_bind_eq_error.mp h with hdraw | ⟨e, r₃, -, h⟩
        · rw [draw_error hdraw, (chooseFilter_eq hfilter).1]
        · cases h

end Resolver

end Errand
