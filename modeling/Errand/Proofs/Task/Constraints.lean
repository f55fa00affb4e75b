/-
  Errand.Proofs.Task.Constraints — what a finished task may rely on.

  A wildcard says by its name, its subtype and its clauses what it stands for. When a
  sentence has become a task, each of its groups that names entities and is bound got one
  that the wildcard allows (`task_sound`): one of the store, of the right domain, not above
  the tier, of a kind that goes with the name and the subtype of most members; and each
  clause of each member, with names for its references, can be read on its own and holds
  of it.

  The invariant of the run: what is bound meets its group's wish under the names bound by then
  (`Met`). What is bound stays bound, so this lasts.
-/

import Errand.Proofs.Random.Script
import Errand.Proofs.Random.Shuffle
import Errand.Proofs.Task.History
import Errand.Proofs.Where.Conjunction
import Errand.Proofs.Wildcard.Grouping

namespace Errand

/-! ## What names stand for -/

/-- The domain of each name that stands for entities. -/
def domainNames : List (Text × Domain) :=
  [ ("object".text, .object), ("kobject".text, .object), ("aobject".text, .object),
    ("location".text, .place), ("beacon".text, .place), ("placement".text, .place), ("room".text, .place),
    ("name".text, .person), ("male".text, .person), ("female".text, .person),
    ("category".text, .category), ("gesture".text, .gesture), ("question".text, .question) ]

/-- The kinds that a name and a subtype leave open, if not all. -/
def kindsOf (name : Text) (subtype : Option Text) : Option (List Filter) :=
  if name = "object".text then
    if subtype = some "known".text then some [.known]
    else if subtype = some "alike".text then some [.alike]
    else none
  else if name = "kobject".text then some [.known]
  else if name = "aobject".text then some [.alike]
  else if name = "location".text then
    if subtype = some "beacon".text then some [.beacon]
    else if subtype = some "placement".text then some [.placement]
    else if subtype = some "room".text then some [.room]
    else some [.beacon, .placement, .room]
  else if name = "beacon".text then some [.beacon]
  else if name = "placement".text then some [.placement]
  else if name = "room".text then some [.room]
  else if name = "name".text then
    if subtype = some "male".text then some [.male]
    else if subtype = some "female".text then some [.female]
    else some [.male, .female]
  else if name = "male".text then some [.male]
  else if name = "female".text then some [.female]
  else none

/-- An entity is of a kind that a name and a subtype leave open. -/
def Suits (name : Text) (subtype : Option Text) (e : Entity) : Prop :=
  ∀ kinds ∈ kindsOf name subtype, ∃ f ∈ kinds, f.admits e = true

namespace Wish

/-- The kinds that a wish leaves open, if not all. -/
def kinds : Wish → Option (List Filter)
  | .whole _ => none
  | .only _ f => some [f]
  | .drawn _ fs => some fs

/-- Whatever a wish lets one draw goes with a name and a subtype. -/
def Serves (wish : Wish) (name : Text) (subtype : Option Text) : Prop :=
  ∀ filter e, wish.Chooses filter → (∀ f ∈ filter, f.admits e = true) → Suits name subtype e

theorem serves_of_kinds {wish : Wish} {name : Text} {subtype : Option Text} (h : kindsOf name subtype = wish.kinds) :
    wish.Serves name subtype := by
  intro filter e hc ha kinds hm
  rw [h] at hm
  cases wish with
  | whole d => cases hm
  | only d f =>
    cases hm
    cases hc
    exact ⟨f, List.mem_cons_self, ha f rfl⟩
  | drawn d fs =>
    cases hm
    obtain ⟨f, hf, rfl⟩ := hc
    exact ⟨f, hf, ha f rfl⟩

theorem ofObject_spec (subtype : Option Text) :
    (ofObject subtype).domain = .object ∧ kindsOf "object".text subtype = (ofObject subtype).kinds := by
  rw [ofObject]
  by_cases hknown : subtype = some "known".text
  · subst hknown
    exact ⟨rfl, rfl⟩
  · rw [if_neg hknown]
    by_cases halike : subtype = some "alike".text
    · subst halike
      exact ⟨rfl, rfl⟩
    · rw [if_neg halike]
      refine ⟨rfl, ?_⟩
      rw [kindsOf, if_pos rfl, if_neg hknown, if_neg halike]
      rfl

/-- One of the kinds that are named by themselves, else any of them. -/
theorem ofKinds_spec {d : Domain} {fs : List Filter} {name : Text} {subtype : Option Text}
    (hone : ∀ f ∈ fs, subtype = some f.word → kindsOf name subtype = some [f])
    (hall : (∀ f ∈ fs, subtype ≠ some f.word) → kindsOf name subtype = some fs) :
    (ofKinds d fs subtype).domain = d ∧ kindsOf name subtype = (ofKinds d fs subtype).kinds := by
  rw [ofKinds]
  rcases hf : fs.find? fun f => subtype == some f.word with _ | f
  · rw [hf]
    refine ⟨rfl, hall fun f hm e => ?_⟩
    exact List.find?_eq_none.mp hf f hm (beq_iff_eq.mpr e)
  · rw [hf]
    refine ⟨rfl, hone f (List.mem_of_find?_eq_some hf) ?_⟩
    have hword := List.find?_some hf
    exact beq_iff_eq.mp hword

theorem location_spec (subtype : Option Text) :
    (ofKinds .place [.beacon, .placement, .room] subtype).domain = .place ∧
      kindsOf "location".text subtype = (ofKinds .place [.beacon, .placement, .room] subtype).kinds := by
  refine ofKinds_spec (fun f hf e => ?_) (fun h => ?_)
  · subst e
    rcases f with _ | _ | _ | _ | _ | _ | _ <;> first | rfl | exact absurd hf (by decide)
  · have hbeacon : subtype ≠ some "beacon".text := h .beacon (by decide)
    have hplacement : subtype ≠ some "placement".text := h .placement (by decide)
    have hroom : subtype ≠ some "room".text := h .room (by decide)
    rw [kindsOf, if_neg (by decide), if_neg (by decide), if_neg (by decide), if_pos rfl,
      if_neg hbeacon, if_neg hplacement, if_neg hroom]

theorem person_spec (subtype : Option Text) :
    (ofKinds .person [.male, .female] subtype).domain = .person ∧
      kindsOf "name".text subtype = (ofKinds .person [.male, .female] subtype).kinds := by
  refine ofKinds_spec (fun f hf e => ?_) (fun h => ?_)
  · subst e
    rcases f with _ | _ | _ | _ | _ | _ | _ <;> first | rfl | exact absurd hf (by decide)
  · have hmale : subtype ≠ some "male".text := h .male (by decide)
    have hfemale : subtype ≠ some "female".text := h .female (by decide)
    rw [kindsOf, if_neg (by decide), if_neg (by decide), if_neg (by decide), if_neg (by decide),
      if_neg (by decide), if_neg (by decide), if_neg (by decide), if_pos rfl, if_neg hmale, if_neg hfemale]

/-- The table of wishes goes with the two tables above. -/
theorem ofName?_kinds {name : Text} {subtype : Option Text} {wish : Wish} (h : ofName? name subtype = some wish) :
    domainNames.lookup name = some wish.domain ∧ kindsOf name subtype = wish.kinds := by
  obtain ⟨make, hmake, rfl⟩ := Option.map_eq_some_iff.mp h
  have hmem : (name, make) ∈ names := mem_of_lookup hmake
  simp only [names, List.mem_cons, Prod.mk.injEq, List.not_mem_nil, or_false] at hmem
  rcases hmem with ⟨rfl, rfl⟩ | ⟨rfl, rfl⟩ | ⟨rfl, rfl⟩ | ⟨rfl, rfl⟩ | ⟨rfl, rfl⟩ | ⟨rfl, rfl⟩ | ⟨rfl, rfl⟩ |
    ⟨rfl, rfl⟩ | ⟨rfl, rfl⟩ | ⟨rfl, rfl⟩ | ⟨rfl, rfl⟩ | ⟨rfl, rfl⟩ | ⟨rfl, rfl⟩
  · obtain ⟨hd, hk⟩ := ofObject_spec subtype
    exact ⟨congrArg some hd.symm, hk⟩
  · exact ⟨rfl, rfl⟩
  · exact ⟨rfl, rfl⟩
  · obtain ⟨hd, hk⟩ := location_spec subtype
    exact ⟨congrArg some hd.symm, hk⟩
  · exact ⟨rfl, rfl⟩
  · exact ⟨rfl, rfl⟩
  · exact ⟨rfl, rfl⟩
  · obtain ⟨hd, hk⟩ := person_spec subtype
    exact ⟨congrArg some hd.symm, hk⟩
  all_goals exact ⟨rfl, rfl⟩

theorem ofName?_spec {name : Text} {subtype : Option Text} {wish : Wish} (h : ofName? name subtype = some wish) :
    domainNames.lookup name = some wish.domain ∧ wish.Serves name subtype :=
  ⟨(ofName?_kinds h).1, serves_of_kinds (ofName?_kinds h).2⟩

end Wish

/-- The entities of a domain. -/
def Store.entitiesOfDomain (s : Store) : Domain → List Entity
  | .category => s.categoryEntities
  | .gesture => s.gestureEntities
  | .place => s.places
  | .person => s.personEntities
  | .object => s.objectEntities
  | .question => s.questionEntities

/-- The domains of which the entities have tiers. -/
def Domain.isTiered : Domain → Bool
  | .object | .gesture | .question => true
  | _ => false

theorem Pools.mem_ofStore {s : Store} {tier : Tier} {d : Domain} {e : Entity} (h : e ∈ (ofStore s tier).get d) :
    e ∈ s.entitiesOfDomain d ∧ (d.isTiered = true → ∃ t, e.tier? = some t ∧ t ≤ tier) := by
  have htiered : ∀ es : List Entity, (∀ x ∈ es, ∃ t, x.tier? = some t) →
      e ∈ es.filter (fun x => x.tier?.all (· ≤ tier)) → e ∈ es ∧ ∃ t, e.tier? = some t ∧ t ≤ tier := by
    intro es hes he
    obtain ⟨hm, hle⟩ := List.mem_filter.mp he
    obtain ⟨t, ht⟩ := hes e hm
    rw [ht] at hle
    exact ⟨hm, t, ht, by simpa using hle⟩
  have hmake : ∀ {α : Type} (make : Nat → α → Entity) (tierOf : α → Tier) (records : List α),
      (∀ n x, (make n x).tier? = some (tierOf x)) →
      ∀ x ∈ Store.entitiesOf make records, ∃ t, x.tier? = some t := by
    intro α make tierOf records ht x hx
    obtain ⟨n, hn, rfl⟩ := List.mem_mapIdx.mp hx
    exact ⟨_, ht n _⟩
  cases d with
  | category => exact ⟨h, fun ht => by cases ht⟩
  | place => exact ⟨h, fun ht => by cases ht⟩
  | person => exact ⟨h, fun ht => by cases ht⟩
  | gesture =>
    obtain ⟨hm, ht⟩ := htiered _ (hmake _ Gesture.tier _ fun n x => rfl) h
    exact ⟨hm, fun _ => ht⟩
  | object =>
    obtain ⟨hm, ht⟩ := htiered _ (hmake _ Object.tier _ fun n x => rfl) h
    exact ⟨hm, fun _ => ht⟩
  | question =>
    obtain ⟨hm, ht⟩ := htiered _ (hmake _ Question.tier _ fun n x => rfl) h
    exact ⟨hm, fun _ => ht⟩

namespace Resolver
variable {σ : Type} [RandomSource σ] {store : Store} {r r' : Resolver σ}

theorem start_pools_perm (store : Store) (tier : Tier) (source : σ) (next : Int) (d : Domain) :
    ((start store tier source next).pools.get d).Perm ((Pools.ofStore store tier).get d) := by
  cases d <;> exact RandomSource.shuffle_perm _ _

/-! ## Demands -/

theorem demand?_of_pronoun {g : Group} (h : isPronoun g = true) : demand? g = none := by
  have hname : g.name = "pron".text := of_decide_eq_true h
  rw [demand?, hname]
  rfl

theorem ofName?_of_demand? {g : Group} {wish : Wish} (h : demand? g = some (.entity wish)) :
    Wish.ofName? g.name g.subtype = some wish := by
  rw [demand?] at h
  split at h
  · cases h
  · obtain ⟨wish', hwish, e⟩ := Option.map_eq_some_iff.mp h
    cases e
    exact hwish

theorem domainNames_keys : domainNames.map Prod.fst = Wish.names.map Prod.fst := rfl

/-- A group whose name stands for entities asks for one. -/
theorem demand?_of_domain {g : Group} {domain : Domain} (h : domainNames.lookup g.name = some domain) :
    ∃ wish, demand? g = some (.entity wish) ∧ wish.domain = domain := by
  have hkey : g.name ∈ Wish.names.map Prod.fst := by
    rw [← domainNames_keys]
    exact List.mem_map_of_mem (mem_of_lookup h)
  have hvoid : g.name ≠ "void".text := by
    intro e
    rw [e] at hkey
    exact absurd hkey (by decide)
  obtain ⟨make, hmake⟩ := Option.isSome_iff_exists.mp (isSome_lookup_iff.mpr hkey)
  have hwish : Wish.ofName? g.name g.subtype = some (make g.subtype) := by
    rw [Wish.ofName?, hmake]
    rfl
  refine ⟨make g.subtype, ?_, ?_⟩
  · rw [demand?, if_neg hvoid, hwish]
    rfl
  · have hdomain := (Wish.ofName?_spec hwish).1
    rw [h] at hdomain
    exact (Option.some.inj hdomain).symm

/-! ## The invariant -/

/-- What a group is bound to is what it asks for: if an entity, then one of the pools at the
    beginning, of a kind that it allows, and its clauses hold of it. -/
def Met (store : Store) (base : Pools) (bound : Bindings) (g : Group) : Demand → Shown → Prop
  | .nothing, shown => shown = .standIn .nothing
  | .entity wish, shown => ∃ e filter, shown = .entity e ∧ e ∈ base.get wish.domain ∧ wish.Chooses filter ∧
      (∀ f ∈ filter, f.admits e = true) ∧ ∀ c ∈ g.clauses, ∃ c' clause, substitute bound c = some c' ∧
        Where.parse c' = .ok clause ∧ clause.holds (some (store.property e)) = .ok true

theorem Met.append {base : Pools} {bound : Bindings} {g : Group} {d : Demand} {shown : Shown}
    (h : Met store base bound g d shown) (more : Bindings) : Met store base (bound ++ more) g d shown := by
  cases d with
  | nothing => exact h
  | entity wish =>
    obtain ⟨e, filter, hs, he, hf, ha, hc⟩ := h
    refine ⟨e, filter, hs, he, hf, ha, fun c hm => ?_⟩
    obtain ⟨c', clause, hsub, hparse, hholds⟩ := hc c hm
    exact ⟨c', clause, substitute_append hsub, hparse, hholds⟩

theorem joinedClause_ok {clauses : List Text} {clause : Option Where.Clause}
    (h : joinedClause clauses = .ok clause) :
    ∃ cs, clauses.mapM Where.parse = .ok cs ∧ clause = Where.conjunction cs := by
  rw [joinedClause] at h
  rcases hm : clauses.mapM Where.parse with f | cs
  · rw [hm] at h
    cases h
  · rw [hm] at h
    cases h
    exact ⟨cs, rfl, rfl⟩

/-- If joined clauses hold of an entity, each of them does, read on its own. -/
theorem holds_of_joined {clauses : List Text} {clause : Option Where.Clause} {filter : Option Filter} {e : Entity}
    (hj : joinedClause clauses = .ok clause) (hf : Pools.Fits store filter clause e) {c : Text}
    (hc : c ∈ clauses) : ∃ parsed, Where.parse c = .ok parsed ∧ parsed.holds (some (store.property e)) = .ok true := by
  obtain ⟨cs, hcs, rfl⟩ := joinedClause_ok hj
  obtain ⟨parsed, hm, hparsed⟩ := exists_of_mapM_ok hcs hc
  refine ⟨parsed, hparsed, ?_⟩
  rcases hall : Where.conjunction cs with _ | all
  · cases cs with
    | nil => cases hm
    | cons first more => cases hall
  · exact (Where.conjunction_holds_iff hall).mp (hf.2 all hall) parsed hm

theorem met_of_fulfil {base : Pools} {bound : Bindings} {g : Group} {d : Demand} {clauses : List Text} {shown : Shown}
    (hbase : ∀ d, ∀ e ∈ r.pools.get d, e ∈ base.get d) (hc : g.clauses.mapM (substitute bound) = some clauses)
    (h : (fulfil store clauses d).run r = (.ok shown, r')) : Met store base bound g d shown := by
  cases d with
  | nothing => exact (fulfil_nothing h).1
  | entity wish =>
    obtain ⟨e, filter, clause, rfl, hchosen, hjoined, htakes, hfits⟩ := fulfil_ok h
    refine ⟨e, filter, rfl, hbase _ e htakes.mem.2, hchosen, hfits.1, fun c hm => ?_⟩
    obtain ⟨c', hc', hsub⟩ := exists_of_substituteAll hc hm
    obtain ⟨parsed, hparsed, hholds⟩ := holds_of_joined hjoined hfits hc'
    exact ⟨c', parsed, hsub, hparsed, hholds⟩

/-- All that is bound is bound to what a group asks for. -/
def AllMet (store : Store) (base : Pools) (groups : List Group) (bound : Bindings) (r : Resolver σ) : Prop :=
  (∀ d, ∀ e ∈ r.pools.get d, e ∈ base.get d) ∧ ∀ k shown, (k, shown) ∈ bound →
    ∃ g d, (g, d) ∈ demandsOf groups ∧ g.keycode = k ∧ Met store base bound g d shown

theorem allMet_keeps (base : Pools) (groups : List Group) :
    Keeps store groups (AllMet (σ := σ) store base groups) := by
  intro g d bound clauses shown r r' hg hc h hi
  obtain ⟨hbase, hmet⟩ := hi
  refine ⟨fun d' e he => ?_, fun k x hx => ?_⟩
  · exact hbase d' e ((fulfil_grant (g := g) h).1.mem.1 d' e he)
  · rcases List.mem_append.mp hx with hx | hx
    · obtain ⟨g', d', hg', hk, hm⟩ := hmet k x hx
      exact ⟨g', d', hg', hk, hm.append _⟩
    · cases List.mem_singleton.mp hx
      exact ⟨g, d, hg, rfl, (met_of_fulfil hbase hc h).append _⟩

/-- After a run, whatever a group that names entities is bound to is what it asks for. -/
theorem met_of_bindAll {base : Pools} {ws : List Occurrence} {groups : List Group} {occurrences : List Occurrence}
    {bound : Bindings} (hgroups : Group.Grouped ws groups) (hbase : ∀ d, ∀ e ∈ r.pools.get d, e ∈ base.get d)
    (h : (bindAll store groups occurrences).run r = (.ok bound, r')) {g : Group} (hg : g ∈ groups) {wish : Wish}
    (hd : demand? g = some (.entity wish)) {shown : Shown} (hs : bound.lookup g.keycode = some shown) :
    Met store base bound g (.entity wish) shown := by
  have hinit : AllMet store base groups [] r := ⟨hbase, fun k x hx => by cases hx⟩
  obtain ⟨-, -, named, -, -, ⟨-, hmet⟩, rfl⟩ :=
    bindAll_invariant (allMet_keeps base groups) (fun _ _ _ hi => hi) h hinit
  rcases List.mem_append.mp (mem_of_lookup hs) with hm | hm
  · obtain ⟨g', d', hg', hk, hm⟩ := hmet _ _ hm
    obtain ⟨hg'', hd'⟩ := mem_demandsOf.mp hg'
    cases hgroups.eq_of_keycode hg'' hg hk
    cases hd.symm.trans hd'
    exact hm.append _
  -- a pronoun asks for no entity
  · obtain ⟨g', hg', e⟩ := List.mem_map.mp hm
    obtain ⟨hg'', hp⟩ := List.mem_filter.mp hg'
    cases hgroups.eq_of_keycode hg'' hg (congrArg Prod.fst e)
    rw [demand?_of_pronoun hp] at hd
    cases hd

omit [RandomSource σ] in
theorem scanned_clause_ne_nil {sentence : Text} {found : Found} (h : (scanned sentence).run r = (.ok found, r')) :
    ∀ w ∈ found.all, w.clause ≠ some [] := by
  obtain ⟨next, hscan, -⟩ := scanned_eq_ok_iff.mp h
  exact Markup.number_clause_ne_nil hscan

/-- What is left in the pools when a sentence has been scanned is of the store, and not above the tier. -/
theorem pools_of_scanned {tier : Tier} {source : σ} {next : Int} {earlier : List Text} {sentence : Text}
    {res : Except TaskFault Found}
    (h : (scanned sentence).run (worked store earlier (start store tier source next)) = (res, r')) (d : Domain) :
    ∀ e ∈ r'.pools.get d, e ∈ (Pools.ofStore store tier).get d := by
  rw [scanned_pools h]
  intro e he
  exact (start_pools_perm store tier source next d).subset ((histories_leads store earlier _).mem.1 d e he)

/-- A task is what its sentence asks for: the entity that a group is bound to is one of the
    store, of the domain that the name of the group stands for, not above the tier, of a
    kind that goes with name and subtype, and all clauses of all members hold of it. -/
theorem task_sound (store : Store) (tier : Tier) (source : σ) (next : Int) (earlier : List Text) (sentence : Text)
    {t : Task} (h : (task store sentence).run (worked store earlier (start store tier source next)) = (.ok t, r')) :
    ∃ found r₁ bound,
      (scanned sentence).run (worked store earlier (start store tier source next)) = (.ok found, r₁) ∧
      (bindAll store (Group.ofOccurrences found.all) found.all).run r₁ = (.ok bound, r') ∧
      t = ⟨weave (tokenOf store (Group.ofOccurrences found.all) bound) 0 sentence found.direct,
        assignments (Group.ofOccurrences found.all) bound, []⟩ ∧
      ∀ g ∈ Group.ofOccurrences found.all, ∀ domain shown,
        domainNames.lookup g.name = some domain → bound.lookup g.keycode = some shown →
        ∃ e, shown = .entity e ∧ e ∈ store.entitiesOfDomain domain ∧
          (domain.isTiered = true → ∃ t, e.tier? = some t ∧ t ≤ tier) ∧ Suits g.name g.subtype e ∧
          ∀ w ∈ g.members, ∀ c ∈ w.clause, ∃ c' clause, substitute bound c = some c' ∧
            Where.parse c' = .ok clause ∧ clause.holds (some (store.property e)) = .ok true := by
  obtain ⟨found, r₁, bound, hscan, hbound, ht⟩ := task_ok h
  refine ⟨found, r₁, bound, hscan, hbound, ht, fun g hg domain shown hdomain hs => ?_⟩
  have hgrouped := Group.grouped_ofOccurrences found.all
  have hbase := pools_of_scanned hscan
  obtain ⟨wish, hd, rfl⟩ := demand?_of_domain hdomain
  obtain ⟨e, filter, hshown, he, hchosen, hadmits, hclauses⟩ := met_of_bindAll hgrouped hbase hbound hg hd hs
  obtain ⟨hmem, htier⟩ := Pools.mem_ofStore he
  refine ⟨e, hshown, hmem, htier, ?_, fun w hw c hc => hclauses c (Group.mem_clauses.mpr ⟨?_, w, hw, hc⟩)⟩
  · exact (Wish.ofName?_spec (ofName?_of_demand? hd)).2 filter e hchosen hadmits
  · rintro rfl
    exact scanned_clause_ne_nil hscan w (hgrouped.sound g hg w hw) hc

/-- One shelf, a cup and an anvil. -/
def pantry : Store where
  rooms := []
  locations := [⟨.text "shelf".text, none, true, false, []⟩]
  categories := []
  objects := [⟨.text "cup".text, .known, .easy, none, []⟩, ⟨.text "anvil".text, .known, .high, none, []⟩]
  people := []
  gestures := []
  questions := []

def pantryErrand : Text := "put \x7bobject 1 where type = \"known\"\x7d on \x7bplacement where name != \x7bobject 1\x7d\x7d".text

theorem task_sound_pantry : ∃ (t : Task) (r' : Resolver Script) (found : Found) (r₁ : Resolver Script) (bound : Bindings),
    (task pantry pantryErrand).run (worked pantry [] (start pantry .moderate (⟨[]⟩ : Script) 1)) = (.ok t, r') ∧
    t.text = "put cup on shelf".text ∧
    (bindAll pantry (Group.ofOccurrences found.all) found.all).run r₁ = (.ok bound, r') ∧
    ∀ g ∈ Group.ofOccurrences found.all, ∀ shown, domainNames.lookup g.name = some .object →
      bound.lookup g.keycode = some shown → ∃ e, shown = .entity e ∧ e ∈ pantry.objectEntities ∧
        ∃ t, e.tier? = some t ∧ t ≤ Tier.moderate := by
  have htext : ((task pantry pantryErrand).run
      (worked pantry [] (start pantry .moderate (⟨[]⟩ : Script) 1))).1.toOption.map Task.text =
      some "put cup on shelf".text := by decide +kernel
  obtain ⟨t, r', hrun, ht⟩ := ok_of_toOption htext
  obtain ⟨found, r₁, bound, -, hbound, -, hall⟩ :=
    task_sound pantry .moderate (⟨[]⟩ : Script) 1 [] pantryErrand hrun
  refine ⟨t, r', found, r₁, bound, hrun, ht, hbound, fun g hg shown hd hs => ?_⟩
  obtain ⟨e, he, hmem, htier, -⟩ := hall g hg .object shown hd hs
  exact ⟨e, he, hmem, htier rfl⟩

end Resolver

end Errand
