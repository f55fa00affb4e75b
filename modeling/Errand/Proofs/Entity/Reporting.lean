/-
  Errand.Proofs.Entity.Reporting — which faults of entity data are reported as such.

  Reading data comes to a plan: additions and the fault that ended the reading. A plan for
  legible data ends in a fault of the data only (`reported_plan`), since all that it needs to
  write can be written. The additions are another matter. Their own names are texts by then,
  but a room, a location or a category that an entry is related to is taken as it stands, and
  one that is neither empty nor a name cannot be added (`add_ok_iff`).
  - `load_reports`: legible data in which all entries are related to names loads, or its fault
    is reported as one of the data; and none but such data loads to the end.
  - `load_misplaced_desk`, `load_immense_room`: both conditions are necessary.
-/

import Errand.Fault
import Errand.Proofs.Entity.Legible
import Errand.Proofs.Entity.Loaded

namespace Errand

/-! ## Names -/

/-- A text or bytes. -/
def Value.IsName (v : Value) : Prop := ∃ n, v.asName = .ok n

/-- What something may be said to be related to: a name, or nothing. -/
def Value.IsRelation (v : Value) : Prop := v.isEmpty = true ∨ v.IsName

instance (v : Value) : Decidable v.IsName :=
  match h : v.asName with
  | .ok n => isTrue ⟨n, h⟩
  | .error _ => isFalse fun ⟨n, hn⟩ => by
    rw [h] at hn
    cases hn

instance (v : Value) : Decidable v.IsRelation := inferInstanceAs (Decidable (v.isEmpty = true ∨ v.IsName))

theorem Value.isName_text (t : Text) : (Value.text t).IsName := ⟨.text t, rfl⟩

theorem Value.asRelated_ok_iff {v : Value} : (∃ related, v.asRelated = .ok related) ↔ v.IsRelation := by
  unfold asRelated IsRelation
  split
  · rename_i hempty
    exact ⟨fun _ => Or.inl hempty, fun _ => ⟨none, rfl⟩⟩
  · rename_i hempty
    constructor
    · rintro ⟨related, h⟩
      obtain ⟨n, hn, -⟩ := exists_of_map_eq_ok h
      exact Or.inr ⟨n, hn⟩
    · rintro (h | ⟨n, hn⟩)
      · exact absurd h hempty
      · exact ⟨some n, by rw [hn]; rfl⟩

/-! ## Additions -/

/-- All names that an addition needs are names. A room is not asked for without a location. -/
def Addition.IsNamed : Addition → Prop
  | .room name _ | .person name _ _ | .gesture name _ _ => name.IsName
  | .location name inside _ _ _ => inside.IsRelation ∧ name.IsName
  | .category name usual inside _ => (usual.isEmpty = true ∨ inside.IsRelation ∧ usual.IsName) ∧ name.IsName
  | .object name related _ _ _ => related.IsRelation ∧ name.IsName
  | .question _ _ _ _ => True

namespace Store
variable {s : Store}

theorem addNamed_ok_iff {before : Store} {name : Value} {put : Name → Store × Nat} :
    (∃ i, (addNamed before name put).2 = .ok i) ↔ name.IsName := by
  rw [addNamed]
  constructor
  · rintro ⟨i, h⟩
    rcases hname : name.asName with f | n
    · rw [hname] at h
      cases h
    · exact ⟨n, hname⟩
  · rintro ⟨n, hn⟩
    rw [hn]
    exact ⟨_, rfl⟩

theorem add_ok_iff {a : Addition} : (∃ i, (s.add a).2 = .ok i) ↔ a.IsNamed := by
  have hfault {α : Type} {f : AddFault} {P : Prop} {x : Except AddFault α} (hx : x = .error f)
      (hP : P → ∃ y, x = .ok y) : (∃ i, (Except.error f : Except AddFault Nat) = .ok i) ↔ P := by
    constructor
    · rintro ⟨i, h⟩
      cases h
    · intro h
      obtain ⟨y, hy⟩ := hP h
      rw [hx] at hy
      cases hy
  cases a with
  | room name properties => exact addNamed_ok_iff
  | person name gender properties => exact addNamed_ok_iff
  | gesture name tier properties => exact addNamed_ok_iff
  | question question answer tier properties => exact ⟨fun _ => trivial, fun _ => ⟨_, rfl⟩⟩
  | location name room placement beacon properties =>
    show (∃ i, (s.addLocation name room placement beacon properties).2 = .ok i) ↔ room.IsRelation ∧ name.IsName
    rw [addLocation, ← Value.asRelated_ok_iff]
    rcases hroom : room.asRelated with f | r
    · exact hfault hroom fun h => hroom ▸ h.1
    · exact addNamed_ok_iff.trans ⟨fun h => ⟨⟨r, rfl⟩, h⟩, And.right⟩
  | category name location room properties =>
    show (∃ i, (s.addCategory name location room properties).2 = .ok i) ↔
      (location.isEmpty = true ∨ room.IsRelation ∧ location.IsName) ∧ name.IsName
    rw [addCategory, ← Value.asRelated_ok_iff]
    split
    · rename_i hempty
      exact addNamed_ok_iff.trans ⟨fun h => ⟨Or.inl hempty, h⟩, And.right⟩
    · rename_i hset
      rcases hroom : room.asRelated with f | r
      · exact hfault hroom fun h => hroom ▸ (h.1.resolve_left hset).1
      rcases hlocation : location.asName with f | l
      · exact hfault hlocation fun h => (h.1.resolve_left hset).2
      · exact addNamed_ok_iff.trans ⟨fun h => ⟨Or.inr ⟨⟨r, rfl⟩, ⟨l, hlocation⟩⟩, h⟩, And.right⟩
  | object name category kind tier properties =>
    show (∃ i, (s.addObject name category kind tier properties).2 = .ok i) ↔ category.IsRelation ∧ name.IsName
    rw [addObject, ← Value.asRelated_ok_iff]
    rcases hcategory : category.asRelated with f | c
    · exact hfault hcategory fun h => hcategory ▸ h.1
    · exact addNamed_ok_iff.trans ⟨fun h => ⟨⟨c, rfl⟩, h⟩, And.right⟩

theorem addAll_eq_none_iff (additions : List Addition) :
    (s.addAll additions).2 = none ↔ ∀ a ∈ additions, a.IsNamed := by
  induction additions generalizing s with
  | nil => simp [addAll]
  | cons a rest ih =>
    rw [List.forall_mem_cons, ← add_ok_iff (s := s), addAll]
    rcases s.add a with ⟨s', f | i⟩
    · constructor
      · intro h
        cases h
      · rintro ⟨⟨i, h⟩, -⟩
        cases h
    · exact ih.trans ⟨fun h => ⟨⟨i, rfl⟩, h⟩, And.right⟩

end Store

/-! ## Entries -/

namespace Loading

/-- What a value has as a mapping; another value has nothing. -/
def entriesOf (v : Value) : Entries :=
  match v.opened with
  | .map entries => entries
  | _ => []

/-- The list under a key; another value has nothing in it. -/
def itemsUnder (key : Text) (e : Entries) : List Value :=
  match (Value.lookup? key e).map Value.opened with
  | some (.list items) => items
  | _ => []

/-- The locations of data: those listed in a room, and those on their own. -/
def locationEntries (data : Value) : List Entries :=
  (((itemsUnder "rooms".text (entriesOf data)).flatMap fun room => itemsUnder "locations".text (entriesOf room)) ++
    itemsUnder "locations".text (entriesOf data)).map entriesOf

def categoryEntries (data : Value) : List Entries := (itemsUnder "categories".text (entriesOf data)).map entriesOf

/-- The objects of data that are not listed in a category. -/
def objectEntries (data : Value) : List Entries := (itemsUnder "objects".text (entriesOf data)).map entriesOf

/-- What the entries of data are said to be related to are names, or nothing. -/
structure RelatesWell (data : Value) : Prop where
  locations : ∀ e ∈ locationEntries data, (field "room".text .null e).IsRelation
  categories : ∀ e ∈ categoryEntries data, (field "location".text .null e).isEmpty = true ∨
    (field "room".text .null e).IsRelation ∧ (field "location".text .null e).IsName
  objects : ∀ e ∈ objectEntries data, (field "category".text .null e).IsRelation

instance (data : Value) : Decidable (RelatesWell data) :=
  decidable_of_iff
    ((∀ e ∈ locationEntries data, (field "room".text .null e).IsRelation) ∧
      (∀ e ∈ categoryEntries data, (field "location".text .null e).isEmpty = true ∨
        (field "room".text .null e).IsRelation ∧ (field "location".text .null e).IsName) ∧
      ∀ e ∈ objectEntries data, (field "category".text .null e).IsRelation)
    ⟨fun h => ⟨h.1, h.2.1, h.2.2⟩, fun h => ⟨h.locations, h.categories, h.objects⟩⟩

theorem entriesOf_opened {v : Value} {entries : Entries} (h : v.opened = .map entries) : entriesOf v = entries := by
  rw [entriesOf, h]

theorem entriesOf_of_isEmpty {v : Value} (h : v.isEmpty = true) : entriesOf v = [] := by
  cases v with
  | scalar | list | pair | set => rfl
  | map entries => exact List.isEmpty_iff.mp h
  | node g n =>
    rw [Value.isEmpty] at h
    rw [entriesOf, Value.opened]
    rcases hnode : g[n]? with _ | node
    · rfl
    · rw [hnode] at h
      cases node with
      | scalar | list | pairs | set => rfl
      | map entries =>
        obtain rfl := List.isEmpty_iff.mp h
        rfl

theorem listUnder_ok {e : Entries} {key : Text} {fault : Text → LoadFault} {items : List Value}
    (h : listUnder e key fault = .ok items) : itemsUnder key e = items := by
  unfold listUnder at h
  unfold itemsUnder
  split at h
  · rename_i hnone
    cases h
    rw [hnone]
  · rename_i hlist
    cases h
    rw [hlist]
  · rename_i v hlist hv
    rw [hv]
    split at h
    · cases h
      split
      · rename_i items hitems
        exact absurd (Option.some.inj hitems) (hlist items)
      · rfl
    · cases h

theorem listUnder_error {e : Entries} {key : Text} {fault : Text → LoadFault} {f : LoadFault}
    (h : listUnder e key fault = .error f) : ∃ kind, f = fault kind := by
  unfold listUnder at h
  split at h
  · cases h
  · cases h
  · split at h
    · cases h
    · cases h
      exact ⟨_, rfl⟩

/-- Apart from its name an entry has what it has as a mapping. -/
theorem lookup_entry {part nameKey key : Text} {item : Value} {e : Entries} (h : entry part nameKey item = .ok e)
    (hkey : nameKey ≠ key) : Value.lookup? key e = Value.lookup? key (entriesOf item) := by
  rcases entry_ok h with ⟨t, ht, rfl⟩ | ⟨hentries, -⟩
  · rw [entriesOf, ht]
    exact if_neg hkey
  · rw [entriesOf_opened hentries]

theorem field_entry {part nameKey key : Text} {item : Value} {e : Entries} (h : entry part nameKey item = .ok e)
    (hkey : nameKey ≠ key) : field key .null e = field key .null (entriesOf item) := by
  rw [field, field, lookup_entry h hkey]

theorem itemsUnder_entry {part nameKey key : Text} {item : Value} {e : Entries} (h : entry part nameKey item = .ok e)
    (hkey : nameKey ≠ key) : itemsUnder key e = itemsUnder key (entriesOf item) := by
  rw [itemsUnder, itemsUnder, lookup_entry h hkey]

theorem isRelation_null : Value.null.IsRelation := Or.inl rfl

/-- A name or nothing instead of what an entry does not say changes nothing. -/
theorem isRelation_field_iff {key : Text} {instead : Value} {e : Entries} (h : instead.IsRelation) :
    (field key instead e).IsRelation ↔ (field key .null e).IsRelation := by
  unfold field
  rcases Value.lookup? key e with _ | v
  · exact ⟨fun _ => isRelation_null, fun _ => h⟩
  · exact Iff.rfl

/-! ## What legible entries come to -/

theorem about_ordinary {v : Value} (hv : v.Legible) {fault : Text → LoadFault} (h : ∀ t, (fault t).isOrdinary = true) :
    (LoadFault.about v fault).isOrdinary = true := by
  obtain ⟨t, ht⟩ := Option.isSome_iff_exists.mp hv.shown?_isSome
  rw [LoadFault.about, ht]
  exact h t

theorem written_of_isSome {o : Option Text} (h : o.isSome = true) : ∃ t, written o = .ok t := by
  obtain ⟨t, rfl⟩ := Option.isSome_iff_exists.mp h
  exact ⟨t, rfl⟩

/-- The keys and values of an entry are legible. -/
def LegibleEntries (e : Entries) : Prop := ∀ x ∈ e, x.1.shown?.isSome = true ∧ x.2.Legible

theorem entry_legible {part nameKey : Text} {item : Value} (hitem : item.Legible) {e : Entries}
    (h : entry part nameKey item = .ok e) : LegibleEntries e := by
  rcases entry_ok h with ⟨t, -, rfl⟩ | ⟨hentries, -⟩
  · intro x hx
    cases List.mem_singleton.mp hx
    exact ⟨rfl, Value.legible_text _⟩
  · exact hitem.entries hentries

theorem field_legible {e : Entries} (he : LegibleEntries e) (key : Text) {instead : Value} (h : instead.Legible) :
    (field key instead e).Legible := by
  unfold field
  rcases hv : Value.lookup? key e with _ | v
  · exact h
  · exact (he _ (Value.mem_of_lookup? hv)).2

theorem entry_error {part nameKey : Text} {item : Value} (hitem : item.Legible) {f : LoadFault}
    (h : entry part nameKey item = .error f) : f.isOrdinary = true := by
  unfold entry at h
  split at h
  · cases h
  · split at h
    · cases h
      exact about_ordinary hitem fun _ => rfl
    · cases h
  · cases h
    exact about_ordinary hitem fun _ => rfl

theorem extras_ends (names : List Text) {e : Entries} (he : LegibleEntries e) :
    ∃ properties, extras names e = .ok properties := by
  unfold extras
  dsimp only
  generalize hfilter : List.filter _ e = kept
  have hkept : LegibleEntries kept := by
    rw [← hfilter]
    exact fun x hx => he x (List.mem_filter.mp hx).1
  clear hfilter
  generalize ([] : Properties) = acc
  induction kept generalizing acc with
  | nil => exact ⟨acc, rfl⟩
  | cons x kept ih =>
    obtain ⟨k, v⟩ := x
    obtain ⟨hx, hrest⟩ := List.forall_mem_cons.mp hkept
    obtain ⟨t, ht⟩ := written_of_isSome (Scalar.display?_isSome hx.1)
    simp only [List.foldlM_cons, ht]
    exact ih hrest _

theorem fields_error {part nameKey : String} {others : List String} {item : Value} (hitem : item.Legible) {f : LoadFault}
    (h : fields part nameKey others item = .error f) : f.isOrdinary = true := by
  rw [fields] at h
  rcases of_bind_eq_error h with h | ⟨e, hentry, h⟩
  · exact entry_error hitem h
  have he := entry_legible hitem hentry
  rcases of_bind_eq_error h with h | ⟨properties, -, h⟩
  · obtain ⟨properties, hproperties⟩ := extras_ends ((nameKey :: others).map String.text) he
    rw [hproperties] at h
    cases h
  rcases of_bind_eq_error h with h | ⟨name, -, h⟩
  · obtain ⟨name, hname⟩ := written_of_isSome (field_legible he nameKey.text Value.legible_null).display?_isSome
    rw [nameOf, hname] at h
    cases h
  · cases h

theorem fields_legible {part nameKey : String} {others : List String} {item : Value} (hitem : item.Legible) {f : Fields}
    (h : fields part nameKey others item = .ok f) : LegibleEntries f.entries :=
  entry_legible hitem (fields_ok h).1

/-- The items of a list in legible entries are legible. -/
theorem listUnder_legible {e : Entries} (he : LegibleEntries e) {key : Text} {fault : Text → LoadFault}
    {items : List Value} (h : listUnder e key fault = .ok items) : ∀ item ∈ items, item.Legible := by
  unfold listUnder at h
  split at h
  · cases h
    intro item hitem
    cases hitem
  · rename_i hlist
    cases h
    obtain ⟨v, hv, hopened⟩ := Option.map_eq_some_iff.mp hlist
    exact (he _ (Value.mem_of_lookup? hv)).2.items hopened
  · split at h
    · cases h
      intro item hitem
      cases hitem
    · cases h

/-! ## Plans for legible data -/

/-- A plan that ends in a fault of the data, if in any, and whose additions are named under a
    condition. -/
abbrev Reported (Well : Prop) (p : Plan) : Prop :=
  p.Meets (fun a => Well → a.IsNamed) fun f => f.isOrdinary = true

section Plans
variable {Well : Prop}

theorem reported_planOf {part nameKey : String} {others : List String} {item : Value} {make : Fields → Plan}
    (hitem : item.Legible) (h : ∀ f, fields part nameKey others item = .ok f → Reported Well (make f)) :
    Reported Well (planOf part nameKey others item make) :=
  meets_planOf (fun _ => fields_error hitem) h

/-- The plan of a list in legible entries. -/
theorem reported_list {e : Entries} (he : LegibleEntries e) {key : Text} {fault : Text → LoadFault}
    (hfault : ∀ kind, (fault kind).isOrdinary = true) {make : List Value → Plan}
    (h : (∀ item ∈ itemsUnder key e, item.Legible) → Reported Well (make (itemsUnder key e))) :
    Reported Well (.ofExcept (listUnder e key fault) make) := by
  refine Plan.meets_ofExcept ?_ ?_
  · intro f hf
    obtain ⟨kind, rfl⟩ := listUnder_error hf
    exact hfault kind
  · intro items hitems
    have hlegible := listUnder_legible he hitems
    rw [← listUnder_ok hitems] at hlegible ⊢
    exact h hlegible

theorem reported_section {e : Entries} (he : LegibleEntries e) {key : String} {make : Value → Plan}
    (h : ∀ item ∈ itemsUnder key.text e, item.Legible → Reported Well (make item)) :
    Reported Well (sectionPlan e key make) :=
  reported_list he (fun _ => rfl) fun hlegible => meets_inOrder_map fun item hitem => h item hitem (hlegible item hitem)

theorem reported_locations {items : List Value} (hitems : ∀ item ∈ items, item.Legible) {room : Value}
    (hroom : room.IsRelation)
    (hwell : Well → ∀ item ∈ items, (field "room".text .null (entriesOf item)).IsRelation) :
    Reported Well (locations items room) := by
  refine meets_inOrder_map fun item hitem => reported_planOf (hitems item hitem) fun f hf => Plan.meets_one fun h => ?_
  refine ⟨(isRelation_field_iff hroom).mpr ?_, Value.isName_text _⟩
  rw [field_entry (fields_ok hf).1 (by decide)]
  exact hwell h item hitem

theorem reported_room {item : Value} (hitem : item.Legible)
    (hwell : Well → ∀ inner ∈ itemsUnder "locations".text (entriesOf item),
      (field "room".text .null (entriesOf inner)).IsRelation) : Reported Well (room item) := by
  refine reported_planOf hitem fun f hf => Plan.Meets.andThen (Plan.meets_one fun _ => Value.isName_text _) ?_
  refine reported_list (fields_legible hitem hf) (fun _ => rfl) fun hlegible => ?_
  refine reported_locations hlegible (Or.inr (Value.isName_text _)) fun h inner hinner => hwell h inner ?_
  rwa [itemsUnder_entry (fields_ok hf).1 (by decide)] at hinner

theorem reported_category {item : Value} (hitem : item.Legible)
    (hwell : Well → (field "location".text .null (entriesOf item)).isEmpty = true ∨
      (field "room".text .null (entriesOf item)).IsRelation ∧ (field "location".text .null (entriesOf item)).IsName) :
    Reported Well (category item) := by
  refine reported_planOf hitem fun f hf => Plan.Meets.andThen (Plan.meets_one fun h => ?_) ?_
  · have hentry := (fields_ok hf).1
    refine ⟨?_, Value.isName_text _⟩
    rw [field_entry hentry (by decide), field_entry hentry (by decide)]
    exact hwell h
  · refine reported_list (fields_legible hitem hf) (fun _ => rfl) fun hlegible => meets_inOrder_map fun inner hinner => ?_
    refine reported_planOf (hlegible inner hinner) fun g _ => Plan.meets_one fun _ => ?_
    exact ⟨Or.inr (Value.isName_text _), Value.isName_text _⟩

theorem reported_objectAlone {item : Value} (hitem : item.Legible)
    (hwell : Well → (field "category".text .null (entriesOf item)).IsRelation) :
    Reported Well (objectAlone item) := by
  refine reported_planOf hitem fun f hf => Plan.meets_one fun h => ⟨?_, Value.isName_text _⟩
  rw [field_entry (fields_ok hf).1 (by decide)]
  exact hwell h

theorem reported_person {item : Value} (hitem : item.Legible) : Reported Well (person item) :=
  reported_planOf hitem fun _ _ => Plan.meets_one fun _ => Value.isName_text _

theorem reported_gesture {item : Value} (hitem : item.Legible) : Reported Well (gesture item) :=
  reported_planOf hitem fun _ _ => Plan.meets_one fun _ => Value.isName_text _

theorem reported_question {item : Value} (hitem : item.Legible) : Reported Well (question item) := by
  refine reported_planOf hitem fun f hf => ?_
  have hanswer := field_legible (fields_legible hitem hf) "answer".text (Value.legible_text openAnswer)
  obtain ⟨t, ht⟩ := written_of_isSome hanswer.display?_isSome
  rw [ht]
  exact Plan.meets_one fun _ => trivial

end Plans

/-- Legible data is read to the end or to a fault of the data; if all its entries are related
    to names, so is all that is to be added. -/
theorem reported_plan {data : Value} (hdata : data.Legible) : Reported (RelatesWell data) (plan data) := by
  rw [plan]
  split
  · exact Plan.meets_done
  split
  · rename_i entries hentries
    have he : LegibleEntries entries := hdata.entries hentries
    obtain rfl := entriesOf_opened hentries
    refine Plan.meets_inOrder ?_
    simp only [List.forall_mem_cons]
    refine ⟨reported_section he ?_, reported_section he ?_, reported_section he ?_, reported_section he ?_,
      reported_section he ?_, reported_section he ?_, reported_section he ?_, fun p hp => by cases hp⟩
    · intro item hitem hlegible
      refine reported_room hlegible fun h inner hinner => h.locations _ (List.mem_map_of_mem ?_)
      exact List.mem_append_left _ (List.mem_flatMap.mpr ⟨item, hitem, hinner⟩)
    · intro item hitem hlegible
      refine reported_locations (List.forall_mem_singleton.mpr hlegible) isRelation_null fun h inner hinner => ?_
      cases List.mem_singleton.mp hinner
      exact h.locations _ (List.mem_map_of_mem (List.mem_append_right _ hitem))
    · exact fun item hitem hlegible => reported_category hlegible fun h => h.categories _ (List.mem_map_of_mem hitem)
    · exact fun item hitem hlegible => reported_objectAlone hlegible fun h => h.objects _ (List.mem_map_of_mem hitem)
    · exact fun item _ hlegible => reported_person hlegible
    · exact fun item _ hlegible => reported_gesture hlegible
    · exact fun item _ hlegible => reported_question hlegible
  · exact Plan.meets_failed rfl

/-! ## What data that was read to the end brings -/

end Loading

/-- A plan without a fault has an addition of a kind. -/
def Plan.Brings (P : Addition → Prop) (p : Plan) : Prop := p.fault = none → ∃ a ∈ p.additions, P a

namespace Plan
variable {P : Addition → Prop} {p q : Plan}

theorem brings_one {a : Addition} (h : P a) : (one a).Brings P := fun _ => ⟨a, List.mem_cons_self, h⟩

theorem Brings.before (h : p.Brings P) : (p.andThen q).Brings P := by
  intro hfault
  unfold andThen at hfault ⊢
  split at hfault
  · cases hfault
  · rename_i hp
    obtain ⟨a, ha, hP⟩ := h hp
    exact ⟨a, List.mem_append_left _ ha, hP⟩

theorem Brings.behind (h : q.Brings P) : (p.andThen q).Brings P := by
  intro hfault
  unfold andThen at hfault ⊢
  split at hfault
  · cases hfault
  · obtain ⟨a, ha, hP⟩ := h hfault
    exact ⟨a, List.mem_append_right _ ha, hP⟩

theorem Brings.inOrder {ps : List Plan} (h : p.Brings P) (hp : p ∈ ps) : (Plan.inOrder ps).Brings P := by
  induction ps with
  | nil => cases hp
  | cons p' ps ih =>
    rcases List.mem_cons.mp hp with rfl | hp
    · exact h.before
    · exact (ih hp).behind

theorem brings_ofExcept {α : Type} {r : Except LoadFault α} {f : α → Plan} (h : ∀ x, r = .ok x → (f x).Brings P) :
    (ofExcept r f).Brings P := by
  rcases r with e | x
  · intro hfault
    cases hfault
  · exact h x rfl

end Plan

namespace Loading
variable {P : Addition → Prop}

theorem brings_list {e : Entries} {key : Text} {fault : Text → LoadFault} {make : List Value → Plan}
    (h : (make (itemsUnder key e)).Brings P) : (Plan.ofExcept (listUnder e key fault) make).Brings P := by
  refine Plan.brings_ofExcept fun items hitems => ?_
  rw [← listUnder_ok hitems]
  exact h

theorem brings_section {e : Entries} {key : String} (make : Value → Plan) {item : Value}
    (hitem : item ∈ itemsUnder key.text e) (h : (make item).Brings P) : (sectionPlan e key make).Brings P :=
  brings_list (h.inOrder (List.mem_map_of_mem hitem))

theorem brings_locations {items : List Value} {item : Value} (hitem : item ∈ items) {room : Value}
    (hroom : room.IsRelation) :
    (locations items room).Brings fun a => a.IsNamed → (field "room".text .null (entriesOf item)).IsRelation := by
  refine Plan.Brings.inOrder (Plan.brings_ofExcept fun f hf => Plan.brings_one fun h => ?_) (List.mem_map_of_mem hitem)
  have hrelated := (isRelation_field_iff hroom).mp h.1
  rwa [field_entry (fields_ok hf).1 (by decide)] at hrelated

/-- What a section with relations brings, the data brings. -/
theorem brings_plan {data : Value} (hdata : data.isEmpty ≠ true) {p : Plan}
    (hp : p ∈ [sectionPlan (entriesOf data) "rooms" room,
      sectionPlan (entriesOf data) "locations" fun item => locations [item] .null,
      sectionPlan (entriesOf data) "categories" category, sectionPlan (entriesOf data) "objects" objectAlone])
    (h : p.Brings P) : (plan data).Brings P := by
  rw [plan, if_neg hdata]
  split
  · rename_i entries hentries
    rw [entriesOf_opened hentries] at hp
    exact h.inOrder (List.mem_append_left [sectionPlan entries "names" person, sectionPlan entries "gestures" gesture,
      sectionPlan entries "questions" question] hp)
  · intro hfault
    cases hfault

/-- If all that was to be added of data that was read to the end is named, its entries are
    related to names. -/
theorem relatesWell_of_plan {data : Value} (hfault : (plan data).fault = none)
    (hnamed : ∀ a ∈ (plan data).additions, a.IsNamed) : RelatesWell data := by
  have hbrought {X : Prop} (h : (plan data).Brings fun a => a.IsNamed → X) : X := by
    obtain ⟨a, ha, hX⟩ := h hfault
    exact hX (hnamed a ha)
  by_cases hdata : data.isEmpty = true
  · have hnothing := entriesOf_of_isEmpty hdata
    refine ⟨?_, ?_, ?_⟩ <;> intro e he
    · rw [locationEntries, hnothing] at he
      cases he
    · rw [categoryEntries, hnothing] at he
      cases he
    · rw [objectEntries, hnothing] at he
      cases he
  refine ⟨?_, ?_, ?_⟩ <;> intro e he
  · obtain ⟨inner, hinner, rfl⟩ := List.mem_map.mp he
    rcases List.mem_append.mp hinner with hinner | hinner
    · obtain ⟨item, hitem, hinner⟩ := List.mem_flatMap.mp hinner
      refine hbrought (brings_plan hdata List.mem_cons_self (brings_section room hitem ?_))
      refine Plan.brings_ofExcept fun f hf => Plan.Brings.behind (brings_list ?_)
      rw [itemsUnder_entry (fields_ok hf).1 (by decide)]
      exact brings_locations hinner (Or.inr (Value.isName_text _))
    · refine hbrought (brings_plan hdata (List.mem_cons_of_mem _ List.mem_cons_self) (brings_section (fun item => locations [item] .null) hinner ?_))
      exact brings_locations List.mem_cons_self isRelation_null
  · obtain ⟨item, hitem, rfl⟩ := List.mem_map.mp he
    refine hbrought (brings_plan hdata (by simp) (brings_section category hitem ?_))
    refine Plan.brings_ofExcept fun f hf => Plan.Brings.before (Plan.brings_one fun h => ?_)
    have hrelated := h.1
    rwa [field_entry (fields_ok hf).1 (by decide), field_entry (fields_ok hf).1 (by decide)] at hrelated
  · obtain ⟨item, hitem, rfl⟩ := List.mem_map.mp he
    refine hbrought (brings_plan hdata (by simp) (brings_section objectAlone hitem ?_))
    refine Plan.brings_ofExcept fun f hf => Plan.brings_one fun h => ?_
    have hrelated := h.1
    rwa [field_entry (fields_ok hf).1 (by decide)] at hrelated

end Loading

/-! ## Loading -/

namespace Store
open Loading

theorem load_fault {s : Store} {data : Value} {f : LoadFault} (h : (s.load data).2 = some f) :
    (f = .unadded .noName ∧ ∃ a ∈ (plan data).additions, ¬a.IsNamed) ∨ (plan data).fault = some f := by
  rw [load] at h
  have hadded := addAll_eq_none_iff (s := s) (plan data).additions
  rcases hadd : s.addAll (plan data).additions with ⟨s', _ | _⟩
  · rw [hadd] at h
    exact Or.inr h
  · rw [hadd] at h hadded
    cases h
    refine Or.inl ⟨rfl, ?_⟩
    by_contra hall
    have hnamed : ∀ a ∈ (plan data).additions, a.IsNamed := fun a ha => by_contra fun h => hall ⟨a, ha, h⟩
    cases hadded.mpr hnamed

/-- Legible data whose entries are related to names or to nothing loads, or what is wrong
    with it is reported as a fault of the data. If there is no fault, the entries were related
    so; a fault that is not reported comes of one that is not. -/
theorem load_reports (s : Store) {data : Value} (hlegible : data.Legible) :
    (RelatesWell data → ∀ f, (s.load data).2 = some f → f.isOrdinary = true) ∧
    ((s.load data).2 = none → RelatesWell data) ∧
    ∀ f, (s.load data).2 = some f → f.isOrdinary = false → f = .unadded .noName := by
  have hplan := reported_plan hlegible
  refine ⟨?_, ?_, ?_⟩
  · intro hwell f hf
    rcases load_fault hf with ⟨-, a, ha, hunnamed⟩ | hfault
    · exact absurd (hplan.additions a ha hwell) hunnamed
    · exact hplan.fault f hfault
  · intro h
    rw [load] at h
    rcases hadd : s.addAll (plan data).additions with ⟨s', _ | f⟩
    · rw [hadd] at h
      refine relatesWell_of_plan h ((addAll_eq_none_iff (s := s) _).mp ?_)
      rw [hadd]
    · rw [hadd] at h
      cases h
  · intro f hf hescapes
    rcases load_fault hf with ⟨hf, -⟩ | hfault
    · exact hf
    · rw [hplan.fault f hfault] at hescapes
      cases hescapes

/-- A drink that has a number for its name, in a category that is called by bytes, and
    gestures that are no list. -/
def odditiesData : Value :=
  .map [(.text "objects".text,
      .list [.map [(.text "name".text, .int 7), (.text "category".text, .scalar (.bytes [0x7a]))]]),
    (.text "gestures".text, .int 5)]

theorem load_reports_oddities : odditiesData.Legible ∧ RelatesWell odditiesData ∧
    (empty.load odditiesData).1.objects.map (·.name) = [.text "7".text] ∧
    ∃ f, (empty.load odditiesData).2 = some f ∧ f.message = "'gestures' must be a list, got int".text ∧
      f.isOrdinary = true := by
  have hlegible : odditiesData.Legible := by
    have hnumbers : Scalar.shown? (.int 7) = some "7".text ∧ Scalar.shown? (.int 5) = some "5".text := by decide +kernel
    refine .map (by decide) (List.forall_mem_cons.mpr ⟨.list ?_, List.forall_mem_singleton.mpr (.scalar ?_)⟩)
    · refine List.forall_mem_singleton.mpr (.map (by decide) ?_)
      refine List.forall_mem_cons.mpr ⟨.scalar ?_, List.forall_mem_singleton.mpr (.scalar rfl)⟩
      rw [hnumbers.1]
      rfl
    · rw [hnumbers.2]
      rfl
  have hwell : RelatesWell odditiesData := by decide
  refine ⟨hlegible, hwell, by decide +kernel, ?_⟩
  have hmessage : (empty.load odditiesData).2.map LoadFault.message =
      some "'gestures' must be a list, got int".text := by decide +kernel
  obtain ⟨f, hload, hf⟩ := Option.map_eq_some_iff.mp hmessage
  exact ⟨f, hload, hf, (load_reports empty hlegible).1 hwell f hload⟩

/-- A location in a room that is called by a number. -/
def misplacedDesk : Value :=
  .map [(.text "locations".text, .list [.map [(.text "name".text, .text "desk".text), (.text "room".text, .int 5)]])]

/-- A related name is not made a text, as the name of an entry is: a number there is a fault
    that is not reported as one of the data. -/
theorem load_misplaced_desk : (empty.load misplacedDesk).2.map LoadFault.isOrdinary = some false ∧
    (empty.load (.map [(.text "rooms".text, .list [.map [(.text "name".text, .int 5)]])])).2.isNone = true := by decide +kernel

/-- A room that is called by a number of 4301 digits. -/
def immenseRoom : Value := .map [(.text "rooms".text, .list [.map [(.text "name".text, .int (Int.ofNat (Nat.pow 10 4300)))]])]

theorem load_immense_room : RelatesWell immenseRoom ∧
    (empty.load immenseRoom).2.map LoadFault.isOrdinary = some false := by decide +kernel

end Store

end Errand
