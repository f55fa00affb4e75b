/-
  Errand.Proofs.Task.Relations — wildcards that are linked by a clause.

  An object can be asked for by its category, a location by its room, each bound to another
  wildcard. The link goes by a text: the name of what the other wildcard is bound to is put
  into the clause in quotes, the clause is read, and the name is compared with that of the
  related entity. What was quoted is read as it was, the relation is found before any free
  property (`Unshadowed`), and names are different in a store (`Sound`); so an entity is
  related to the very one that the other wildcard is bound to (`related_bound`).

  This needs names of one kind. A name may be bytes, and then it is compared with a text by
  what it is shown as, which may be the name of another entity (`lookalike_bound`).
-/

import Errand.Proofs.Entity.Loaded
import Errand.Proofs.Entity.Names
import Errand.Proofs.Random.Script
import Errand.Proofs.Task.Constraints
import Errand.Proofs.Task.Numbers
import Errand.Proofs.Where.Rereading
import Errand.Proofs.Wildcard.Identity
import Errand.Proofs.Wildcard.References

namespace Errand

/-! ## The condition of a relation -/

/-- A property is the same as a text. -/
def sameAs (property t : Text) : Where.Condition := ⟨property, .equal, .text t⟩

theorem sameAs_written (property t : Text) : (sameAs property t).written = property ++ " = ".text ++ Where.quote t := by
  show property ++ " ".text ++ "=".text ++ " ".text ++ Where.quote t = _
  simp only [List.append_assoc]
  rfl

theorem parse_sameAs {property : Text} (hname : (Where.TokenContent.name property).IsProper) (t : Text) :
    Where.parse (property ++ " = ".text ++ Where.quote t) =
      .ok ⟨property ++ " = ".text ++ Where.quote t, .condition (sameAs property t)⟩ := by
  have hchain := Where.parse_tree_written (c := ⟨⟨false, sameAs property t⟩, []⟩) ?_ ?_
  · rw [← sameAs_written]
    exact hchain
  · intro k hk
    have hk : k ∈ [.name property, .comparator .equal, .literal (.text t)] := hk
    simp only [List.mem_cons, List.not_mem_nil, or_false] at hk
    have hreal : ¬k.IsReal := by
      rintro ⟨x, rfl⟩
      simp at hk
    refine ⟨?_, hreal⟩
    rcases hk with rfl | rfl | rfl
    · exact hname
    · rintro sign ⟨⟩
    · trivial
  · intro term hterm
    cases List.mem_singleton.mp hterm
    exact Or.inr (Or.inl rfl)

theorem sameAs_holds {property t : Text} {found : Property} (h : (sameAs property t).holds found = .ok true) :
    found.isNull = false ∧ ∃ u, found.asText = .ok u ∧ Text.lower u = Text.lower t := by
  simp only [Where.Condition.holds, sameAs] at h
  by_cases hnull : found.isNull = true
  · rw [if_pos hnull] at h
    cases h
  · rw [if_neg hnull] at h
    obtain ⟨u, hu, hsame⟩ := exists_of_map_eq_ok h
    exact ⟨Bool.eq_false_iff.mpr hnull, u, hu, by simpa [Where.Comparator.sameness] using hsame⟩

/-! ## Relations of a store -/

theorem Name.asText_value (n : Name) : (Property.value n.value).asText = .ok n.display := by
  cases n with
  | text t => rfl
  | bytes bs => rfl

theorem Entity.property_of_free {e : Entity} {name : Text} (hkind : name ≠ "kind".text) (hfield : e.field? name = none)
    (hfree : e.properties.get? name = none) : e.property name = .missing := by
  simp only [property, if_neg hkind, hfield, hfree]

namespace Store
variable {s : Store}

theorem property_of_related {e : Entity} {name : Text} {related : Name} (h : s.relatedName? e name = some related) :
    s.property e name = .value related.value := by
  rw [property, h]

theorem property_of_unrelated {e : Entity} {name : Text} (h : s.relatedName? e name = none) :
    s.property e name = e.property name := by
  rw [property, h]

/-- Only by its category an object has something under that name. -/
theorem category_found (hsound : s.Sound) (hs : s.Unshadowed) {p : Nat} {o : Object} (ho : o ∈ s.objects)
    (hfound : (s.property (.object p o) "category".text).isNull = false) : ∃ e, s.category? (.object p o) = some e ∧
      s.property (.object p o) "category".text = .value e.name.value := by
  have hrelated : s.relatedName? (.object p o) "category".text = (s.category? (.object p o)).map Entity.name := rfl
  rcases hcategory : s.category? (.object p o) with _ | e
  · rw [hcategory] at hrelated
    have hnone : o.category.isSome = false := by
      rw [← hsound.related.category p o ho, hcategory]
      rfl
    have hfree : o.properties.get? "category".text = none := by
      rcases hs.objects o ho with hfree | hsome
      · exact hfree
      · rw [hnone] at hsome
        cases hsome
    have hmissing : (Entity.object p o).property "category".text = .missing :=
      Entity.property_of_free (by decide) rfl hfree
    rw [property_of_unrelated hrelated, hmissing] at hfound
    cases hfound
  · rw [hcategory] at hrelated
    exact ⟨e, rfl, property_of_related hrelated⟩

/-- Only by its room a location has something under that name. -/
theorem room_found (hs : s.Unshadowed) {p : Nat} {l : Location} (hl : l ∈ s.locations)
    (hfound : (s.property (.location p l) "room".text).isNull = false) : ∃ e, s.room? (.location p l) = some e ∧
      s.property (.location p l) "room".text = .value e.name.value := by
  have hrelated : s.relatedName? (.location p l) "room".text = (s.room? (.location p l)).map Entity.name := rfl
  rcases hroom : s.room? (.location p l) with _ | e
  · rw [hroom] at hrelated
    have hmissing : (Entity.location p l).property "room".text = .missing :=
      Entity.property_of_free (by decide) rfl (hs.locations l hl)
    rw [property_of_unrelated hrelated, hmissing] at hfound
    cases hfound
  · rw [hroom] at hrelated
    exact ⟨e, rfl, property_of_related hrelated⟩

/-! ## One record to a name -/

theorem place_eq_of_lower {α : Type} {nameOf : α → Name} {records : List α} (h : (records.map fun x => (nameOf x).lower).Nodup)
    {i j : Nat} {x y : α} (hx : records[i]? = some x) (hy : records[j]? = some y) (hxy : (nameOf x).lower = (nameOf y).lower) :
    i = j := by
  obtain ⟨hi, rfl⟩ := List.getElem?_eq_some_iff.mp hx
  obtain ⟨hj, rfl⟩ := List.getElem?_eq_some_iff.mp hy
  have hi' : i < (records.map fun x => (nameOf x).lower).length := by simpa using hi
  have hj' : j < (records.map fun x => (nameOf x).lower).length := by simpa using hj
  have hsame : (records.map fun x => (nameOf x).lower)[i] = (records.map fun x => (nameOf x).lower)[j] := by
    simpa only [List.getElem_map] using hxy
  exact h.getElem_inj_iff.mp hsame

theorem mem_entitiesOf {α : Type} {make : Nat → α → Entity} {records : List α} {e : Entity}
    (h : e ∈ entitiesOf make records) : ∃ i x, records[i]? = some x ∧ e = make i x := by
  obtain ⟨i, hi, rfl⟩ := List.mem_mapIdx.mp h
  exact ⟨i, records[i], List.getElem?_eq_getElem hi, rfl⟩

/-- A category that an object has is there. -/
theorem of_category? {e e' : Entity} (h : s.category? e = some e') : ∃ i c, s.categories[i]? = some c ∧ e' = .category i c := by
  cases e with
  | object p o =>
    obtain ⟨i, -, hi⟩ := Option.bind_eq_some_iff.mp h
    obtain ⟨c, hc, rfl⟩ := Option.map_eq_some_iff.mp hi
    exact ⟨i, c, hc, rfl⟩
  | room _ _ | location _ _ | category _ _ | person _ _ | gesture _ _ | question _ _ => cases h

theorem of_room? {p : Nat} {l : Location} {e' : Entity} (h : s.room? (.location p l) = some e') :
    ∃ i r, s.rooms[i]? = some r ∧ e' = .room i r := by
  obtain ⟨i, -, hi⟩ := Option.bind_eq_some_iff.mp h
  obtain ⟨r, hr, rfl⟩ := Option.map_eq_some_iff.mp hi
  exact ⟨i, r, hr, rfl⟩

end Store

/-! ## Links -/

namespace Resolver

/-- The clause that links a wildcard to the numbered one of which the name is the word for the relation. -/
def link (word : Text) (n : Nat) : Text := word ++ " = ".text ++ reference (keycode word n)

/-- A word for a relation, which clauses can be written with. -/
structure IsLinkWord (word : Text) : Prop where
  small : Small word
  ne_nil : word ≠ []
  proper : (Where.TokenContent.name word).IsProper

theorem isLinkWord_category : IsLinkWord "category".text := ⟨by unfold Small; decide, by decide, by decide, by decide⟩

theorem isLinkWord_room : IsLinkWord "room".text := ⟨by unfold Small; decide, by decide, by decide, by decide⟩

/-- The names of two entities are the same when they are shown, up to small and capital letters. -/
def LooksLike (e e' : Entity) : Prop := Text.lower e.name.display = Text.lower e'.name.display

/-- What is related to the one is what the other is bound to: so it looks, and so it is if both are called
    by texts or both by bytes. -/
def Linked (related : Option Entity) (other : Option Shown) : Prop :=
  ∃ e e', related = some e ∧ other = some (.entity e') ∧ LooksLike e e' ∧ (e.name.isText = e'.name.isText → e = e')

theorem substitute_link {bound : Bindings} {word : Text} (hword : IsLinkWord word) (n : Nat) :
    substitute bound (link word n) =
      (bound.lookup (keycode word n)).map fun shown => word ++ " = ".text ++ Where.quote shown.name.display := by
  have hplain (t : Text) (ht : .char '<' ∉ t) : .char '<' ∉ word ++ t := by
    rw [List.mem_append, not_or]
    refine ⟨?_, ht⟩
    intro hmem
    exact absurd (hword.small _ hmem) (by decide)
  have htext : link word n = (word ++ " =".text) ++ .char ' ' :: reference (keycode word n) := by
    simp only [link, List.append_assoc]
    rfl
  have hreferences : references (link word n) = [keycode word n] := by
    rw [htext, references_one (hplain _ (by decide)) hword.small hword.ne_nil]
  have hreplaced (new : Text) :
      Text.replaceAll (reference (keycode word n)) new (link word n) = word ++ " = ".text ++ new :=
    Text.replaceAll_behind (c := '<') new (hplain _ (by decide))
  rw [substitute_eq, hreferences, List.foldlM_cons, withName]
  rcases bound.lookup (keycode word n) with _ | shown
  · rfl
  · rw [Option.map_some, Option.map_some, hreplaced]
    rfl

variable {σ : Type} [RandomSource σ] {store : Store} {r r' : Resolver σ}

/-- Only keycodes of groups are bound. -/
theorem group_of_lookup {groups : List Group} {occurrences : List Occurrence} {bound : Bindings}
    (h : (bindAll store groups occurrences).run r = (.ok bound, r')) {k : Text} {shown : Shown}
    (hs : bound.lookup k = some shown) : ∃ g ∈ groups, g.keycode = k := by
  have hkeeps : Keeps store groups fun bound (_ : Resolver σ) => ∀ k shown, (k, shown) ∈ bound → ∃ g ∈ groups, g.keycode = k := by
    intro g d bound clauses shown r r' hg _ _ hi k x hx
    rcases List.mem_append.mp hx with hx | hx
    · exact hi k x hx
    · cases List.mem_singleton.mp hx
      exact ⟨g, (mem_demandsOf.mp hg).1, rfl⟩
  obtain ⟨-, -, named, -, -, hnamed, rfl⟩ :=
    bindAll_invariant hkeeps (fun _ _ _ hi => hi) h (fun k x hx => by cases hx)
  rcases List.mem_append.mp (mem_of_lookup hs) with hm | hm
  · exact hnamed k shown hm
  · obtain ⟨g, hg, he⟩ := List.mem_map.mp hm
    exact ⟨g, (List.mem_filter.mp hg).1, congrArg Prod.fst he⟩

theorem registered_marker {next : Int} {ms : List Marker} {w : Registered} (h : w ∈ registered next ms) : w.marker ∈ ms := by
  induction ms generalizing next with
  | nil => cases h
  | cons m ms ih =>
    rw [registered] at h
    split at h
    · rcases List.mem_cons.mp h with rfl | h
      · exact List.mem_cons_self
      · exact List.mem_cons_of_mem _ (ih h)
    · rcases List.mem_cons.mp h with rfl | h
      · exact List.mem_cons_self
      · exact List.mem_cons_of_mem _ (ih h)

omit [RandomSource σ] in
/-- Wildcards have names of small letters. -/
theorem scanned_small {sentence : Text} {found : Found} (h : (scanned sentence).run r = (.ok found, r')) :
    ∀ w ∈ found.all, Small w.name := by
  obtain ⟨next, hscan, -⟩ := scanned_eq_ok_iff.mp h
  intro w hw
  obtain ⟨i, hi, rfl⟩ := List.mem_iff_getElem.mp hw
  obtain ⟨hlength, hgives⟩ := List.forall₂_iff_get.mp (scan_gives hscan)
  obtain ⟨place, nested, clause, metadata, he⟩ := hgives i (hlength ▸ hi) hi
  have hmarker := registered_marker (List.get_mem _ ⟨i, hlength ▸ hi⟩)
  rw [List.get_eq_getElem] at he
  rw [he]
  exact (Markup.markers_proper _ _ _ _ hmarker).small

/-- What a link that holds says of the property it goes by. -/
theorem found_of_link {bound : Bindings} {word : Text} (hword : IsLinkWord word) {n : Nat} {e : Entity}
    (h : ∃ c' clause, substitute bound (link word n) = some c' ∧ Where.parse c' = .ok clause ∧
      clause.holds (some (store.property e)) = .ok true) :
    ∃ shown, bound.lookup (keycode word n) = some shown ∧ (store.property e word).isNull = false ∧
      ∃ u, (store.property e word).asText = .ok u ∧ Text.lower u = Text.lower shown.name.display := by
  obtain ⟨c', clause, hsubstitute, hparse, hholds⟩ := h
  rw [substitute_link hword] at hsubstitute
  obtain ⟨shown, hshown, rfl⟩ := Option.map_eq_some_iff.mp hsubstitute
  rw [parse_sameAs hword.proper] at hparse
  cases hparse
  exact ⟨shown, hshown, sameAs_holds hholds⟩

/-- Records of one kind that look alike are linked. -/
theorem linked_records {α : Type} {make : Nat → α → Entity} (nameOf : α → Name) (hmake : ∀ i x, (make i x).name = nameOf x)
    {records : List α} (hnodup : (records.map fun x => (nameOf x).lower).Nodup) {i j : Nat} {x y : α}
    (hx : records[i]? = some x) (hy : records[j]? = some y)
    (hlooks : Text.lower (nameOf x).display = Text.lower (nameOf y).display) :
    Linked (some (make i x)) (some (.entity (make j y))) := by
  refine ⟨make i x, make j y, rfl, rfl, ?_, ?_⟩
  · rw [LooksLike, hmake, hmake]
    exact hlooks
  · intro hkind
    rw [hmake, hmake] at hkind
    have hplace := Store.place_eq_of_lower hnodup hx hy (Name.lower_eq_of_display hkind hlooks)
    subst hplace
    rw [hx] at hy
    cases hy
    rfl

/-- A group that asks for a beacon, or for a placement. -/
def AsksForLocation (g : Group) : Prop :=
  domainNames.lookup g.name = some .place ∧
    (kindsOf g.name g.subtype = some [.beacon] ∨ kindsOf g.name g.subtype = some [.placement])

theorem location_of_suits {s : Store} {g : Group} (hg : AsksForLocation g) {e : Entity} (he : e ∈ s.places)
    (hsuits : Suits g.name g.subtype e) : ∃ p, ∃ l ∈ s.locations, e = .location p l := by
  have hadmits : Filter.beacon.admits e = true ∨ Filter.placement.admits e = true := by
    rcases hg.2 with hkinds | hkinds
    · obtain ⟨f, hf, ha⟩ := hsuits _ hkinds
      cases List.mem_singleton.mp hf
      exact Or.inl ha
    · obtain ⟨f, hf, ha⟩ := hsuits _ hkinds
      cases List.mem_singleton.mp hf
      exact Or.inr ha
  rcases List.mem_append.mp he with he | he
  · obtain ⟨i, r, -, rfl⟩ := Store.mem_entitiesOf he
    rcases hadmits with h | h
    · cases h
    · cases h
  · obtain ⟨i, l, hl, rfl⟩ := Store.mem_entitiesOf he
    exact ⟨i, l, List.mem_of_getElem? hl, rfl⟩

theorem room_of_suits {s : Store} {subtype : Option Text} {e : Entity} (he : e ∈ s.places)
    (hsuits : Suits "room".text subtype e) : ∃ i r, s.rooms[i]? = some r ∧ e = .room i r := by
  obtain ⟨f, hf, ha⟩ := hsuits [.room] rfl
  cases List.mem_singleton.mp hf
  rcases List.mem_append.mp he with he | he
  · exact Store.mem_entitiesOf he
  · obtain ⟨i, l, -, rfl⟩ := Store.mem_entitiesOf he
    cases ha

section Bound
variable {tier : Tier} {found : Found} {r₁ : Resolver σ} {bound : Bindings} {sentence : Text}
  (hscan : (scanned sentence).run r = (.ok found, r₁))
  (hbound : (bindAll store (Group.ofOccurrences found.all) found.all).run r₁ = (.ok bound, r'))
  (hbase : ∀ d, ∀ e ∈ r₁.pools.get d, e ∈ (Pools.ofStore store tier).get d)

include hscan hbound in
/-- What is seen in the bindings of a sentence. -/
theorem seen_of_run {β : Type} {view : Bindings → β} {b : β}
    (h : ((scanned sentence >>= fun found => bindAll store (Group.ofOccurrences found.all) found.all).run
      r).1.toOption.map view = some b) : view bound = b := by
  rw [run_bind_ok hscan, hbound] at h
  exact Option.some.inj h

include hbound hbase

/-- What a group of a domain is bound to, the kinds it may be of, and its clauses, which hold. -/
theorem entity_of_group {g : Group} (hg : g ∈ Group.ofOccurrences found.all) {domain : Domain}
    (hdomain : domainNames.lookup g.name = some domain) {shown : Shown} (hs : bound.lookup g.keycode = some shown) :
    ∃ e, shown = .entity e ∧ e ∈ store.entitiesOfDomain domain ∧ Suits g.name g.subtype e ∧
      ∀ c ∈ g.clauses, ∃ c' clause, substitute bound c = some c' ∧ Where.parse c' = .ok clause ∧
        clause.holds (some (store.property e)) = .ok true := by
  obtain ⟨wish, hd, rfl⟩ := demand?_of_domain hdomain
  obtain ⟨e, filter, rfl, he, hchosen, hadmits, hholds⟩ :=
    met_of_bindAll (Group.grouped_ofOccurrences found.all) hbase hbound hg hd hs
  exact ⟨e, rfl, (Pools.mem_ofStore he).1, (Wish.ofName?_spec (ofName?_of_demand? hd)).2 filter e hchosen hadmits, hholds⟩

include hscan

/-- What a keycode with a name of a domain is bound to, and the kinds it may be of. -/
theorem entity_of_lookup {name : Text} (hsmall : Small name) {domain : Domain}
    (hdomain : domainNames.lookup name = some domain) {n : Nat} {shown : Shown}
    (hs : bound.lookup (keycode name n) = some shown) :
    ∃ e subtype, shown = .entity e ∧ e ∈ store.entitiesOfDomain domain ∧ Suits name subtype e := by
  obtain ⟨g, hg, hkey⟩ := group_of_lookup hbound hs
  have hname : g.name = name := by
    have hfirst : Small g.name :=
      scanned_small hscan _ ((Group.grouped_ofOccurrences found.all).sound g hg _ List.mem_cons_self)
    rw [← keycode_name hfirst g.first.number, ← keycode_name hsmall n, ← hkey]
    rfl
  obtain ⟨e, he, hmem, hsuits, -⟩ := entity_of_group hbound hbase hg (hname ▸ hdomain) (hkey ▸ hs)
  exact ⟨e, g.subtype, he, hmem, hname ▸ hsuits⟩

/-- What a group with a link is bound to, what the other one is bound to, and how the property
    that the link goes by reads. -/
theorem linked_group {g : Group} (hg : g ∈ Group.ofOccurrences found.all) {domain other : Domain}
    (hdomain : domainNames.lookup g.name = some domain) {word : Text} (hword : IsLinkWord word)
    (hother : domainNames.lookup word = some other) {n : Nat} (hclauses : g.clauses = [link word n]) {shown : Shown}
    (hs : bound.lookup g.keycode = some shown) :
    ∃ e e' subtype, shown = .entity e ∧ bound.lookup (keycode word n) = some (.entity e') ∧
      e ∈ store.entitiesOfDomain domain ∧ Suits g.name g.subtype e ∧
      e' ∈ store.entitiesOfDomain other ∧ Suits word subtype e' ∧ (store.property e word).isNull = false ∧
      ∃ u, (store.property e word).asText = .ok u ∧ Text.lower u = Text.lower e'.name.display := by
  obtain ⟨e, he, hmem, hsuits, hholds⟩ := entity_of_group hbound hbase hg hdomain hs
  obtain ⟨shown', hs', hfound, htext⟩ := found_of_link hword (hholds _ (hclauses ▸ List.mem_cons_self))
  obtain ⟨e', subtype, rfl, hmem', hsuits'⟩ := entity_of_lookup hscan hbound hbase hword.small hother hs'
  exact ⟨e, e', subtype, he, hs', hmem, hsuits, hmem', hsuits', hfound, htext⟩

/-- An object with a link to a category is in the category that it is linked to. -/
theorem category_linked (hsound : store.Sound) (hunshadowed : store.Unshadowed) {g : Group}
    (hg : g ∈ Group.ofOccurrences found.all) (hdomain : domainNames.lookup g.name = some .object) {n : Nat}
    (hclauses : g.clauses = [link "category".text n]) {shown : Shown} (hs : bound.lookup g.keycode = some shown) :
    ∃ e, shown = .entity e ∧ Linked (store.category? e) (bound.lookup (keycode "category".text n)) := by
  obtain ⟨e, e', subtype, rfl, hs', he, -, he', -, hfound, u, hu, hlooks⟩ :=
    linked_group hscan hbound hbase hg hdomain isLinkWord_category rfl hclauses hs
  obtain ⟨p, o, ho, rfl⟩ := Store.mem_entitiesOf he
  obtain ⟨j, c', hc', rfl⟩ := Store.mem_entitiesOf he'
  obtain ⟨e₁, hcategory, hproperty⟩ := Store.category_found hsound hunshadowed (List.mem_of_getElem? ho) hfound
  obtain ⟨i, c, hc, rfl⟩ := Store.of_category? hcategory
  rw [hproperty, Name.asText_value] at hu
  cases hu
  refine ⟨_, rfl, ?_⟩
  rw [hcategory, hs']
  exact linked_records Category.name (fun _ _ => rfl) hsound.categories hc hc' hlooks

/-- A beacon or a placement with a link to a room is in the room that it is linked to. -/
theorem room_linked (hsound : store.Sound) (hunshadowed : store.Unshadowed) {g : Group}
    (hg : g ∈ Group.ofOccurrences found.all) (hasks : AsksForLocation g) {n : Nat}
    (hclauses : g.clauses = [link "room".text n]) {shown : Shown} (hs : bound.lookup g.keycode = some shown) :
    ∃ e, shown = .entity e ∧ Linked (store.room? e) (bound.lookup (keycode "room".text n)) := by
  obtain ⟨e, e', subtype, rfl, hs', he, hsuits, he', hsuits', hfound, u, hu, hlooks⟩ :=
    linked_group hscan hbound hbase hg hasks.1 isLinkWord_room rfl hclauses hs
  obtain ⟨p, l, hl, rfl⟩ := location_of_suits hasks he hsuits
  obtain ⟨j, c', hc', rfl⟩ := room_of_suits he' hsuits'
  obtain ⟨e₁, hroom, hproperty⟩ := Store.room_found hunshadowed hl hfound
  obtain ⟨i, c, hc, rfl⟩ := Store.of_room? hroom
  rw [hproperty, Name.asText_value] at hu
  cases hu
  refine ⟨_, rfl, ?_⟩
  rw [hroom, hs']
  exact linked_records Room.name (fun _ _ => rfl) hsound.rooms hc hc' hlooks

end Bound

/-- A wildcard that a clause links to another one is bound to something that is related to what
    the other one is bound to: an object by its category, a beacon or a placement by its room. -/
theorem related_bound (datas : List Value) (tier : Tier) (source : σ) (next : Int) (earlier : List Text)
    (sentence : Text) {t : Task}
    (h : (task (.ofData datas) sentence).run (worked (.ofData datas) earlier (start (.ofData datas) tier source next)) =
      (.ok t, r')) : ∃ found r₁ bound,
      (scanned sentence).run (worked (.ofData datas) earlier (start (.ofData datas) tier source next)) = (.ok found, r₁) ∧
      (bindAll (.ofData datas) (Group.ofOccurrences found.all) found.all).run r₁ = (.ok bound, r') ∧
      t = ⟨weave (tokenOf (.ofData datas) (Group.ofOccurrences found.all) bound) 0 sentence found.direct,
        assignments (Group.ofOccurrences found.all) bound, []⟩ ∧
      ∀ g ∈ Group.ofOccurrences found.all, ∀ shown, bound.lookup g.keycode = some shown → ∀ n : Nat,
        (domainNames.lookup g.name = some .object → g.clauses = [link "category".text n] → ∃ e, shown = .entity e ∧
          Linked ((Store.ofData datas).category? e) (bound.lookup (keycode "category".text n))) ∧
        (AsksForLocation g → g.clauses = [link "room".text n] → ∃ e, shown = .entity e ∧
          Linked ((Store.ofData datas).room? e) (bound.lookup (keycode "room".text n))) := by
  have hsound := Store.loaded_sound datas
  have hunshadowed := Store.loaded_unshadowed datas
  generalize Store.ofData datas = store at h hsound hunshadowed
  obtain ⟨found, r₁, bound, hscan, hbound, ht⟩ := task_ok h
  refine ⟨found, r₁, bound, hscan, hbound, ht, ?_⟩
  intro g hg shown hs n
  have hbase := pools_of_scanned hscan
  constructor
  · intro hdomain hclauses
    exact category_linked hscan hbound hbase hsound hunshadowed hg hdomain hclauses hs
  · intro hasks hclauses
    exact room_linked hscan hbound hbase hsound hunshadowed hg hasks hclauses hs

/-- The entity that a keycode is bound to. -/
def entity? (bound : Bindings) (k : Text) : Option Entity :=
  match bound.lookup k with
  | some (.entity e) => some e
  | _ => none

theorem entity?_eq_some_iff {bound : Bindings} {k : Text} {e : Entity} :
    entity? bound k = some e ↔ bound.lookup k = some (.entity e) := by
  rw [entity?]
  split
  · rename_i e' he
    rw [he, Option.some_inj, Option.some_inj, Shown.entity.injEq]
  · rename_i hno
    constructor
    · intro h
      cases h
    · intro h
      exact absurd h (hno e)

/-- Something in the category that another wildcard is bound to. -/
def inCategory : Text := "\x7bcategory 2\x7d \x7bobject where category = \x7bcategory 1\x7d\x7d".text

omit [RandomSource σ] in
theorem inCategory_group {found : Found} {r r₁ : Resolver σ} (hnext : r.next = 1000)
    (hscan : (scanned inCategory).run r = (.ok found, r₁)) : ∃ g ∈ Group.ofOccurrences found.all,
      g.keycode = "object1000".text ∧ g.name = "object".text ∧ g.clauses = [link "category".text 1] := by
  have hseen : ((scan inCategory).run 1000).1.toOption.map
      (fun found => (Group.ofOccurrences found.all).map fun g => (g.keycode, g.name, g.clauses)) =
        some [("category0002".text, "category".text, []), ("object1000".text, "object".text, [link "category".text 1]),
          ("category0001".text, "category".text, [])] := by decide +kernel
  obtain ⟨found', next, hrun, hgroups⟩ := ok_of_toOption hseen
  rw [scanned_eq, hnext, hrun] at hscan
  cases hscan
  have hmem : ("object1000".text, "object".text, [link "category".text 1]) ∈
      (Group.ofOccurrences found.all).map fun g => (g.keycode, g.name, g.clauses) := by
    rw [hgroups]
    exact List.mem_cons_of_mem _ List.mem_cons_self
  obtain ⟨g, hg, he⟩ := List.mem_map.mp hmem
  obtain ⟨hkey, he⟩ := Prod.mk.inj he
  exact ⟨g, hg, hkey, Prod.mk.inj he⟩

/-- Two categories, one with quotes, a backslash and a capital letter in its name. -/
def drawers : List Value :=
  [.map [(.text "categories".text, .list
    [.map [(.text "name".text, .text "TEA".text), (.text "objects".text, .list [.text "pot".text])],
      .map [(.text "name".text, .text "Cook's \"\\\" tools".text), (.text "objects".text, .list [.text "ladle".text])]])]]

theorem related_bound_drawers : ∃ (t : Task) (r' : Resolver Script) (found : Found) (r₁ : Resolver Script) (bound : Bindings),
    (task (.ofData drawers) inCategory).run
      (worked (.ofData drawers) [] (start (.ofData drawers) .high (⟨[]⟩ : Script) 1000)) = (.ok t, r') ∧
    t.text = "TEA ladle".text ∧
    (bindAll (.ofData drawers) (Group.ofOccurrences found.all) found.all).run r₁ = (.ok bound, r') ∧
    ∃ g ∈ Group.ofOccurrences found.all, g.clauses = [link "category".text 1] ∧
      ∃ e e', bound.lookup g.keycode = some (.entity e) ∧
        bound.lookup (keycode "category".text 1) = some (.entity e') ∧
        (Store.ofData drawers).category? e = some e' := by
  have htext : ((task (.ofData drawers) inCategory).run
      (worked (.ofData drawers) [] (start (.ofData drawers) .high (⟨[]⟩ : Script) 1000))).1.toOption.map Task.text =
      some "TEA ladle".text := by decide +kernel
  have hseen : ((scanned inCategory >>= fun found =>
      bindAll (.ofData drawers) (Group.ofOccurrences found.all) found.all).run
        (worked (.ofData drawers) [] (start (.ofData drawers) .high (⟨[]⟩ : Script) 1000))).1.toOption.map
          (fun bound => ((bound.lookup "object1000".text).isSome,
            (entity? bound (keycode "category".text 1)).map fun e => e.name.isText)) =
      some (true, some true) := by decide +kernel
  have htexts : ∀ c ∈ (Store.ofData drawers).categories, c.name.isText = true := by decide +kernel
  obtain ⟨t, r', hrun, ht⟩ := ok_of_toOption htext
  obtain ⟨found, r₁, bound, hscan, hbound, -, hall⟩ := related_bound drawers .high (⟨[]⟩ : Script) 1000 [] inCategory hrun
  obtain ⟨g, hg, hkey, hname, hclauses⟩ := inCategory_group rfl hscan
  have hboth := seen_of_run hscan hbound hseen
  obtain ⟨hsome, hkind⟩ := Prod.mk.inj hboth
  rw [← hkey] at hsome
  obtain ⟨shown, hs⟩ := Option.isSome_iff_exists.mp hsome
  obtain ⟨e, rfl, e₁, e₂, hcategory, hs', -, hsame⟩ := (hall g hg shown hs 1).1 (by rw [hname]; rfl) hclauses
  obtain ⟨i, c, hc, rfl⟩ := Store.of_category? hcategory
  have hs' : bound.lookup (keycode "category".text 1) = some (.entity e₂) := hs'
  rw [entity?_eq_some_iff.mpr hs'] at hkind
  have hkinds : c.name.isText = e₂.name.isText := (htexts c (List.mem_of_getElem? hc)).trans (Option.some.inj hkind).symm
  refine ⟨t, r', found, r₁, bound, hrun, ht, hbound, g, hg, hclauses, e, e₂, hs, hs', ?_⟩
  rw [hcategory, hsame hkinds]

/-- Two categories that look alike, one called by a text and the other by a byte. -/
def lookalikes : List Value :=
  [.map [(.text "categories".text, .list
      [.map [(.text "name".text, .text "b'x'".text), (.text "objects".text, .list [.text "cup".text])]]),
    (.text "objects".text, .list
      [.map [(.text "name".text, .text "pen".text), (.text "category".text, .scalar (.bytes [120]))]])]]

/-- An object of the category that only looks like the one that the other wildcard is bound to. -/
theorem lookalike_bound : ∃ (t : Task) (r' : Resolver Script) (found : Found) (r₁ : Resolver Script) (bound : Bindings),
    (task (.ofData lookalikes) inCategory).run
      (worked (.ofData lookalikes) [] (start (.ofData lookalikes) .high (⟨[0, 0, 1, 0]⟩ : Script) 1000)) = (.ok t, r') ∧
    (scanned inCategory).run
      (worked (.ofData lookalikes) [] (start (.ofData lookalikes) .high (⟨[0, 0, 1, 0]⟩ : Script) 1000)) = (.ok found, r₁) ∧
    (bindAll (.ofData lookalikes) (Group.ofOccurrences found.all) found.all).run r₁ = (.ok bound, r') ∧
    ∃ g ∈ Group.ofOccurrences found.all, g.name = "object".text ∧ g.clauses = [link "category".text 1] ∧
      ∃ e category other, bound.lookup g.keycode = some (.entity e) ∧
        bound.lookup (keycode "category".text 1) = some (.entity category) ∧
        (Store.ofData lookalikes).category? e = some other ∧ other ≠ category := by
  have htext : ((task (.ofData lookalikes) inCategory).run
      (worked (.ofData lookalikes) [] (start (.ofData lookalikes) .high (⟨[0, 0, 1, 0]⟩ : Script) 1000))).1.toOption.map
        Task.text = some "b'x' cup".text := by decide +kernel
  have hseen : ((scanned inCategory >>= fun found =>
      bindAll (.ofData lookalikes) (Group.ofOccurrences found.all) found.all).run
        (worked (.ofData lookalikes) [] (start (.ofData lookalikes) .high (⟨[0, 0, 1, 0]⟩ : Script) 1000))).1.toOption.map
          (fun bound => ((entity? bound "object1000".text).bind fun e =>
              ((Store.ofData lookalikes).category? e).map fun other => other.name.isText,
            (entity? bound (keycode "category".text 1)).map fun e => e.name.isText)) =
      some (some true, some false) := by decide +kernel
  obtain ⟨t, r', hrun, -⟩ := ok_of_toOption htext
  obtain ⟨found, r₁, bound, hscan, hbound, -⟩ := task_ok hrun
  obtain ⟨g, hg, hkey, hname, hclauses⟩ := inCategory_group rfl hscan
  have hboth := seen_of_run hscan hbound hseen
  obtain ⟨hobject, hcategory⟩ := Prod.mk.inj hboth
  obtain ⟨e, he, hother⟩ := Option.bind_eq_some_iff.mp hobject
  obtain ⟨other, hof, htext⟩ := Option.map_eq_some_iff.mp hother
  obtain ⟨category, hc, hbytes⟩ := Option.map_eq_some_iff.mp hcategory
  rw [← hkey] at he
  refine ⟨t, r', found, r₁, bound, hrun, hscan, hbound, g, hg, hname, hclauses, e, category, other, ?_, ?_, hof, ?_⟩
  · exact entity?_eq_some_iff.mp he
  · exact entity?_eq_some_iff.mp hc
  · rintro rfl
    rw [htext] at hbytes
    cases hbytes

end Resolver

end Errand
