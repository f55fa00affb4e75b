/-
  Errand.Proofs.Task.Candidates — a draw fails only where nothing can be drawn.

  What a group could be bound to are its candidates: the entities in the pool of its domain
  that are of a kind left open by name and subtype, and of which all clauses hold. If the
  clauses can be tested, the group is bound to a candidate, which leaves its pool, and it is
  not bound only if there is none; then the pools stay as they are (`fulfil_bound_iff`).

  A draw has two stages, and the danger is in their meeting: where several kinds are left
  open one of them is drawn first, and then an entity of that kind. The kind drawn is one
  that can be served whenever any can (`chooseFilter_serves`).
-/

import Errand.Proofs.Task.Constraints
import Errand.Proofs.Task.Failing
import Errand.Proofs.Where.Folding

namespace Errand

/-! ## One out of a list -/

section
variable {α ε : Type} {l : List α}

theorem mapM_ends {β : Type} {f : α → Except ε β} (h : ∀ a ∈ l, ∃ b, f a = .ok b) : ∃ bs, l.mapM f = .ok bs := by
  induction l with
  | nil => exact ⟨[], rfl⟩
  | cons a l ih =>
    obtain ⟨⟨b, hb⟩, hrest⟩ := List.forall_mem_cons.mp h
    obtain ⟨bs, hbs⟩ := ih hrest
    exact ⟨b :: bs, by rw [List.mapM_cons, hb, hbs]; rfl⟩

theorem existsIn_spec (test : α → Except ε Bool) (htest : ∀ x ∈ l, ∃ b, test x = .ok b) :
    ∃ b, existsIn test l = .ok b ∧ (b = true ↔ ∃ x ∈ l, test x = .ok true) := by
  induction l with
  | nil => exact ⟨false, rfl, by simp⟩
  | cons x rest ih =>
    obtain ⟨⟨b, hx⟩, hrest⟩ := List.forall_mem_cons.mp htest
    rw [existsIn, hx]
    cases b with
    | true => exact ⟨true, rfl, by simp [hx]⟩
    | false =>
      obtain ⟨b, hb, hiff⟩ := ih hrest
      exact ⟨b, hb, by simp [hx, hiff]⟩

/-- Nothing is found if and only if nothing passes. -/
theorem takeFirst_spec (test : α → Except ε Bool) (htest : ∀ x ∈ l, ∃ b, test x = .ok b) :
    (takeFirst test l = .ok none ∧ ∀ x ∈ l, test x ≠ .ok true) ∨
      ∃ found, takeFirst test l = .ok (some found) := by
  induction l with
  | nil => exact Or.inl ⟨rfl, fun x hx => by cases hx⟩
  | cons x rest ih =>
    obtain ⟨⟨b, hx⟩, hrest⟩ := List.forall_mem_cons.mp htest
    rw [takeFirst, hx]
    cases b with
    | true => exact Or.inr ⟨_, rfl⟩
    | false =>
      rcases ih hrest with ⟨hnone, hall⟩ | ⟨⟨y, others⟩, hsome⟩
      · refine Or.inl ⟨by rw [hnone]; rfl, List.forall_mem_cons.mpr ⟨?_, hall⟩⟩
        rw [hx]
        exact fun e => by cases e
      · exact Or.inr ⟨(y, x :: others), by rw [hsome]; rfl⟩

theorem takeLast_eq_none (h : takeLast l = none) : l = [] :=
  List.getLast?_eq_none_iff.mp (Option.map_eq_none_iff.mp h)

end

/-! ## What a pool can serve -/

namespace Pools
variable {p : Pools} {s : Store} {d : Domain} {clause : Option Where.Clause}

/-- A clause comes to a truth value on every entity of a pool. -/
def IsTestable (p : Pools) (s : Store) (d : Domain) (clause : Option Where.Clause) : Prop :=
  ∀ e ∈ p.get d, ∀ c ∈ clause, ∃ b, c.holds (some (s.property e)) = .ok b

/-- Some entity of a pool is of a kind and fulfils a clause. -/
def Serves (p : Pools) (s : Store) (d : Domain) (clause : Option Where.Clause) (filter : Option Filter) : Prop :=
  ∃ e ∈ p.get d, Fits s filter clause e

theorem admits_of_fits {filter : Option Filter} {e : Entity} (h : Fits s filter clause e) :
    s.admits filter clause e = .ok true := by
  obtain ⟨hkind, hclause⟩ := h
  have hall : filter.all (·.admits e) = true := by
    rcases filter with _ | f
    · rfl
    · exact hkind f rfl
  unfold Store.admits
  rw [if_pos hall]
  rcases clause with _ | c
  · rfl
  · exact hclause c rfl

theorem admits_ends {filter : Option Filter} {e : Entity}
    (htest : ∀ c ∈ clause, ∃ b, c.holds (some (s.property e)) = .ok b) : ∃ b, s.admits filter clause e = .ok b := by
  rcases h : s.admits filter clause e with f | b
  · obtain ⟨c, hc, hf⟩ := admits_error h
    obtain ⟨b, hb⟩ := htest c hc
    rw [hb] at hf
    cases hf
  · exact ⟨b, rfl⟩

theorem take_spec (htest : p.IsTestable s d clause) (filter : Option Filter) :
    (p.take s d filter clause = .ok none ∧ ¬p.Serves s d clause filter) ∨
      ∃ taken, p.take s d filter clause = .ok (some taken) := by
  by_cases hnone : filter = none ∧ clause = none
  · obtain ⟨rfl, rfl⟩ := hnone
    rw [take_last]
    rcases hlast : takeLast (p.get d) with _ | ⟨e, others⟩
    · refine Or.inl ⟨rfl, ?_⟩
      rintro ⟨e, he, -⟩
      rw [takeLast_eq_none hlast] at he
      cases he
    · exact Or.inr ⟨_, rfl⟩
  · rw [take_first p s d hnone]
    rcases takeFirst_spec (s.admits filter clause) fun e he => admits_ends (htest e he) with
      ⟨hfirst, hall⟩ | ⟨⟨e, others⟩, hfirst⟩
    · refine Or.inl ⟨by rw [hfirst]; rfl, ?_⟩
      rintro ⟨e, he, hfits⟩
      exact hall e he (admits_of_fits hfits)
    · exact Or.inr ⟨_, by rw [hfirst]; rfl⟩

theorem available_spec (htest : p.IsTestable s d clause) (fs : List Filter) :
    ∃ there, p.available s d clause fs = .ok there ∧
      ∀ f, f ∈ there ↔ f ∈ fs ∧ p.Serves s d clause (some f) := by
  induction fs with
  | nil => exact ⟨[], rfl, by simp⟩
  | cons f fs ih =>
    obtain ⟨there, hthere, hmem⟩ := ih
    obtain ⟨b, hb, hiff⟩ := existsIn_spec (s.admits (some f) clause) fun e he => admits_ends (htest e he)
    have hserves : b = true ↔ p.Serves s d clause (some f) :=
      hiff.trans ⟨fun ⟨e, he, ha⟩ => ⟨e, he, fits_of_admits ha⟩, fun ⟨e, he, hf⟩ => ⟨e, he, admits_of_fits hf⟩⟩
    refine ⟨if b then f :: there else there, by rw [available, hb, hthere]; rfl, fun g => ?_⟩
    cases b with
    | true =>
      have hf := hserves.mp rfl
      rw [if_pos rfl, List.mem_cons, hmem, List.mem_cons]
      constructor
      · rintro (rfl | ⟨hg, hs⟩)
        · exact ⟨Or.inl rfl, hf⟩
        · exact ⟨Or.inr hg, hs⟩
      · rintro ⟨rfl | hg, hs⟩
        · exact Or.inl rfl
        · exact Or.inr ⟨hg, hs⟩
    | false =>
      have hf : ¬p.Serves s d clause (some f) := fun h => by cases hserves.mpr h
      rw [if_neg Bool.false_ne_true, hmem, List.mem_cons]
      constructor
      · rintro ⟨hg, hs⟩
        exact ⟨Or.inr hg, hs⟩
      · rintro ⟨rfl | hg, hs⟩
        · exact absurd hs hf
        · exact ⟨hg, hs⟩

end Pools

namespace Resolver
variable {σ : Type} [RandomSource σ] {store : Store} {r r' : Resolver σ} {clause : Option Where.Clause}

/-! ## The two stages -/

/-- The kind that is chosen can be served if any kind that the wish leaves open can; none is chosen
    only if none can. -/
theorem chooseFilter_serves {wish : Wish} (htest : r.pools.IsTestable store wish.domain clause) :
    (∃ text r', (chooseFilter store wish clause).run r = (.error (.exhausted wish.domain none text), r') ∧
      ∀ filter, wish.Chooses filter → ¬r.pools.Serves store wish.domain clause filter) ∨
    ∃ filter r', (chooseFilter store wish clause).run r = (.ok filter, r') ∧
      ∀ filter', wish.Chooses filter' → r.pools.Serves store wish.domain clause filter' →
        r.pools.Serves store wish.domain clause filter := by
  cases wish with
  | whole d =>
    refine Or.inr ⟨none, r, rfl, fun filter' hc hs => ?_⟩
    cases hc
    exact hs
  | only d f =>
    refine Or.inr ⟨some f, r, rfl, fun filter' hc hs => ?_⟩
    cases hc
    exact hs
  | drawn d fs =>
    obtain ⟨there, hthere, hmem⟩ := Pools.available_spec (d := d) htest fs
    rw [chooseFilter, run_bind_get]
    rcases there with _ | ⟨first, more⟩
    · refine Or.inl ⟨_, r, by rw [hthere]; rfl, fun filter hc hs => ?_⟩
      obtain ⟨f, hf, rfl⟩ := hc
      cases (hmem f).mpr ⟨hf, hs⟩
    · refine Or.inr ⟨_, _, by rw [hthere]; rfl, fun _ _ _ => ?_⟩
      exact ((hmem _).mp (List.get_mem _ _)).2

omit [RandomSource σ] in
theorem draw_serves {d : Domain} (htest : r.pools.IsTestable store d clause) (filter : Option Filter) :
    (∃ text, (draw store d filter clause).run r = (.error (.exhausted d filter text), r) ∧
      ¬r.pools.Serves store d clause filter) ∨
    ∃ e r', (draw store d filter clause).run r = (.ok e, r') := by
  rw [draw, run_bind_get]
  rcases Pools.take_spec htest filter with ⟨hnone, hserves⟩ | ⟨⟨e, pools⟩, hsome⟩
  · exact Or.inl ⟨_, by rw [hnone]; rfl, hserves⟩
  · exact Or.inr ⟨e, _, by rw [hsome]; rfl⟩

/-- A group is bound to an entity, or nothing that it asks for is there. -/
theorem fulfil_serves {clauses : List Text} {wish : Wish} (hjoined : joinedClause clauses = .ok clause)
    (htest : r.pools.IsTestable store wish.domain clause) :
    (∃ filter text r', (fulfil store clauses (.entity wish)).run r = (.error (.exhausted wish.domain filter text), r') ∧
      ∀ filter, wish.Chooses filter → ¬r.pools.Serves store wish.domain clause filter) ∨
    ∃ e r', (fulfil store clauses (.entity wish)).run r = (.ok (.entity e), r') := by
  have hclause : (ExceptT.mk (pure (joinedClause clauses)) : Resolving σ _).run r = (.ok clause, r) := by
    rw [run_result, hjoined]
  rw [fulfil, run_bind_ok hclause]
  rcases chooseFilter_serves htest with ⟨text, r₁, hnone, hserves⟩ | ⟨filter, r₁, hfilter, hserves⟩
  · exact Or.inl ⟨none, text, r₁, run_bind_error hnone, hserves⟩
  · rw [run_bind_ok hfilter]
    have hpools := (chooseFilter_eq hfilter).1
    rcases draw_serves (r := r₁) (hpools ▸ htest) filter with ⟨text, hnone, hempty⟩ | ⟨e, r₂, hdraw⟩
    · refine Or.inl ⟨filter, text, r₁, run_bind_error hnone, fun filter' hc hs => hempty ?_⟩
      rw [hpools]
      exact hserves filter' hc hs
    · exact Or.inr ⟨e, r₂, run_bind_ok hdraw⟩

/-! ## Candidates -/

/-- An entity that a group with some clauses could be bound to: it is in the pool of the domain, of a
    kind that the name and the subtype of the group leave open, and each clause holds of it. -/
structure IsCandidate (store : Store) (p : Pools) (d : Domain) (g : Group) (clauses : List Text) (e : Entity) : Prop where
  pooled : e ∈ p.get d
  suits : Suits g.name g.subtype e
  fulfils : ∀ c ∈ clauses, ∃ parsed, Where.parse c = .ok parsed ∧ parsed.holds (some (store.property e)) = .ok true

theorem exists_chosen_of_suits {wish : Wish} {name : Text} {subtype : Option Text} {e : Entity}
    (hk : kindsOf name subtype = wish.kinds) (h : Suits name subtype e) :
    ∃ filter, wish.Chooses filter ∧ ∀ f ∈ filter, f.admits e = true := by
  rw [Suits, hk] at h
  cases wish with
  | whole d => exact ⟨none, rfl, fun f hf => by cases hf⟩
  | only d f =>
    obtain ⟨g, hg, ha⟩ := h _ rfl
    cases List.mem_singleton.mp hg
    refine ⟨some f, rfl, fun f' hf => ?_⟩
    cases hf
    exact ha
  | drawn d fs =>
    obtain ⟨g, hg, ha⟩ := h _ rfl
    refine ⟨some g, ⟨g, hg, rfl⟩, fun f' hf => ?_⟩
    cases hf
    exact ha

/-- What a wish allows, under the joined clauses, are the candidates. -/
theorem isCandidate_iff {p : Pools} {g : Group} {wish : Wish} (hwish : Wish.ofName? g.name g.subtype = some wish)
    {clauses : List Text} {cs : List Where.Clause} (hcs : clauses.mapM Where.parse = .ok cs) {e : Entity} :
    IsCandidate store p wish.domain g clauses e ↔ e ∈ p.get wish.domain ∧
      ∃ filter, wish.Chooses filter ∧ Pools.Fits store filter (Where.conjunction cs) e := by
  have hkinds := (Wish.ofName?_kinds hwish).2
  have hjoined : joinedClause clauses = .ok (Where.conjunction cs) := by
    rw [joinedClause, hcs]
  constructor
  · rintro ⟨he, hsuits, hall⟩
    obtain ⟨filter, hchosen, hadmits⟩ := exists_chosen_of_suits hkinds hsuits
    refine ⟨he, filter, hchosen, hadmits, fun joined hc => (Where.conjunction_holds_iff hc).mpr fun parsed hp => ?_⟩
    obtain ⟨c, hc, hparsed⟩ := exists_of_mem_mapM hcs hp
    obtain ⟨parsed', hparsed', hholds⟩ := hall c hc
    cases hparsed.symm.trans hparsed'
    exact hholds
  · rintro ⟨he, filter, hchosen, hfits⟩
    exact ⟨he, Wish.serves_of_kinds hkinds filter e hchosen hfits.1, fun c hc => holds_of_joined hjoined hfits hc⟩

/-- If the clauses can be read, and tested on the entities of the pool, a group is bound if and only
    if it has a candidate. It is bound to one, which alone leaves its pool; else the pools stay as
    they are. -/
theorem fulfil_bound_iff (store : Store) (r : Resolver σ) {g : Group} {domain : Domain}
    (hdomain : domainNames.lookup g.name = some domain) {clauses : List Text}
    (htest : ∀ c ∈ clauses, ∃ parsed, Where.parse c = .ok parsed ∧
      ∀ e ∈ r.pools.get domain, ∃ b, parsed.holds (some (store.property e)) = .ok b) :
    ∃ demand, demand? g = some demand ∧
      ((∃ filter text r', (fulfil store clauses demand).run r = (.error (.exhausted domain filter text), r')) ↔
        ¬∃ e, IsCandidate store r.pools domain g clauses e) ∧
      ((¬∃ e, IsCandidate store r.pools domain g clauses e) →
        ((fulfil store clauses demand).run r).2.pools = r.pools) ∧
      ((∃ e, IsCandidate store r.pools domain g clauses e) →
        ∃ e r', (fulfil store clauses demand).run r = (.ok (.entity e), r') ∧
          IsCandidate store r.pools domain g clauses e ∧ r.pools.Takes domain e r'.pools) := by
  obtain ⟨wish, hd, rfl⟩ := demand?_of_domain hdomain
  have hwish := ofName?_of_demand? hd
  obtain ⟨cs, hcs⟩ := mapM_ends fun c hc => (htest c hc).imp fun _ h => h.1
  have hjoined : joinedClause clauses = .ok (Where.conjunction cs) := by
    rw [joinedClause, hcs]
  have hends : r.pools.IsTestable store wish.domain (Where.conjunction cs) := by
    intro e he joined hc
    refine ⟨_, Where.conjunction_holds_eq hc fun parsed hp => ?_⟩
    obtain ⟨c, hc, hparsed⟩ := exists_of_mem_mapM hcs hp
    obtain ⟨parsed', hparsed', hall⟩ := htest c hc
    cases hparsed.symm.trans hparsed'
    exact hall e he
  refine ⟨.entity wish, hd, ?_⟩
  rcases fulfil_serves hjoined hends with ⟨filter, text, r', hrun, hserves⟩ | ⟨e, r', hrun⟩
  · have hnone : ¬∃ e, IsCandidate store r.pools wish.domain g clauses e := by
      rintro ⟨e, he⟩
      obtain ⟨hpool, filter, hchosen, hfits⟩ := (isCandidate_iff hwish hcs).mp he
      exact hserves filter hchosen ⟨e, hpool, hfits⟩
    refine ⟨iff_of_true ⟨filter, text, r', hrun⟩ hnone, fun _ => ?_, fun h => absurd h hnone⟩
    rw [hrun]
    exact fulfil_error hrun
  · obtain ⟨e', filter, clause, he', hchosen, hjoined', htakes, hfits⟩ := fulfil_ok hrun
    cases he'
    cases hjoined.symm.trans hjoined'
    have hcandidate : IsCandidate store r.pools wish.domain g clauses e :=
      (isCandidate_iff hwish hcs).mpr ⟨htakes.mem.2, filter, hchosen, hfits⟩
    refine ⟨iff_of_false ?_ (not_not_intro ⟨e, hcandidate⟩), fun h => absurd ⟨e, hcandidate⟩ h,
      fun _ => ⟨e, r', hrun, hcandidate, htakes⟩⟩
    rintro ⟨filter, text, r'', hrun'⟩
    rw [hrun] at hrun'
    cases hrun'

/-- An attic with a nook, which is neither a beacon nor a placement, and with a shelf. -/
def nooks : Store where
  rooms := [⟨.text "attic".text, []⟩]
  locations := [⟨.text "nook".text, some 0, false, false, []⟩, ⟨.text "shelf".text, some 0, true, false, []⟩]
  categories := []
  objects := []
  people := []
  gestures := []
  questions := []

/-- Whoever asks for a location in the attic. -/
def anywhere : Group := ⟨⟨"location".text, false, none, 1000, some "room = 'attic'".text, none, 0, 33,
  "\x7blocation where room = 'attic'\x7d".text, false⟩, []⟩

/-- The nook comes first and fulfils the clause, but only the shelf is of a kind that can be drawn; the
    script would choose a beacon. -/
theorem fulfil_bound_iff_nook : ∃ demand e r',
    domainNames.lookup anywhere.name = some .place ∧
    (∀ c ∈ anywhere.clauses, ∃ parsed, Where.parse c = .ok parsed ∧
      ∀ e ∈ (Pools.ofStore nooks .high).get .place, ∃ b, parsed.holds (some (nooks.property e)) = .ok b) ∧
    demand? anywhere = some demand ∧
    (fulfil nooks anywhere.clauses demand).run ⟨Pools.ofStore nooks .high, (⟨[0]⟩ : Script), 1000, []⟩ = (.ok (.entity e), r') ∧
    e.name = .text "shelf".text ∧
    IsCandidate nooks (Pools.ofStore nooks .high) .place anywhere anywhere.clauses e ∧
    (Pools.ofStore nooks .high).Takes .place e r'.pools := by
  have hclauses : anywhere.clauses = ["room = 'attic'".text] := by decide +kernel
  have hview : (Where.parse "room = 'attic'".text).toOption.map (fun parsed =>
      ((Pools.ofStore nooks .high).get .place).map fun e => parsed.holds (some (nooks.property e))) =
      some [.ok false, .ok true, .ok true] := by decide +kernel
  obtain ⟨parsed, hparsed, hholds⟩ := exists_of_toOption hview
  obtain ⟨hattic, hholds⟩ := List.cons.inj hholds
  obtain ⟨hnook, hholds⟩ := List.cons.inj hholds
  obtain ⟨hshelf, -⟩ := List.cons.inj hholds
  have htest : ∀ c ∈ anywhere.clauses, ∃ parsed, Where.parse c = .ok parsed ∧
      ∀ e ∈ (Pools.ofStore nooks .high).get .place, ∃ b, parsed.holds (some (nooks.property e)) = .ok b := by
    rw [hclauses, List.forall_mem_singleton]
    exact ⟨parsed, hparsed, List.forall_mem_cons.mpr ⟨⟨_, hattic⟩, List.forall_mem_cons.mpr
      ⟨⟨_, hnook⟩, List.forall_mem_singleton.mpr ⟨_, hshelf⟩⟩⟩⟩
  obtain ⟨demand, hd, -, -, hbound⟩ := fulfil_bound_iff nooks
    ⟨Pools.ofStore nooks .high, (⟨[0]⟩ : Script), 1000, []⟩ (show domainNames.lookup anywhere.name = some .place from rfl) htest
  have hfulfils : ∀ c ∈ anywhere.clauses, ∃ parsed, Where.parse c = .ok parsed ∧
      parsed.holds (some (nooks.property (.location 1 ⟨.text "shelf".text, some 0, true, false, []⟩))) = .ok true := by
    rw [hclauses, List.forall_mem_singleton]
    exact ⟨parsed, hparsed, hshelf⟩
  have hsuits : Suits anywhere.name anywhere.subtype (.location 1 ⟨.text "shelf".text, some 0, true, false, []⟩) := by
    rintro kinds ⟨⟩
    exact ⟨.placement, by decide, rfl⟩
  obtain ⟨e, r', hrun, hcandidate, htakes⟩ := hbound ⟨_, .tail _ (.tail _ (.head _)), hsuits, hfulfils⟩
  refine ⟨demand, e, r', rfl, htest, hd, hrun, ?_, hcandidate, htakes⟩
  -- neither the attic itself nor the nook is a candidate
  obtain ⟨hpooled, hsuits, hfulfils⟩ := hcandidate
  rcases List.mem_cons.mp hpooled with rfl | hpooled
  · obtain ⟨parsed', hparsed', hholds⟩ := hfulfils _ (by rw [hclauses]; exact List.mem_cons_self)
    cases hparsed.symm.trans hparsed'
    cases hattic.symm.trans hholds
  · rcases List.mem_cons.mp hpooled with rfl | hpooled
    · obtain ⟨f, hf, hadmits⟩ := hsuits _ rfl
      exact absurd hadmits (by revert f; decide)
    · rw [List.mem_singleton.mp hpooled]
      rfl

end Resolver

end Errand
