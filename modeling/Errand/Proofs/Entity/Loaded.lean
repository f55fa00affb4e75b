/-
  Errand.Proofs.Entity.Loaded — relations and free properties of what was loaded.

  A clause looks for a relation first and for a free property of that name next. In a store
  that was loaded from data nothing is found the second way: an entry of the data keeps its
  fields apart from what it has beyond them, also where a key is no text, and an object under
  a category is in that category, which has a name (`loaded_unshadowed`).
-/

import Errand.Proofs.Entity.Integrity
import Errand.Proofs.Entity.Shown
import Errand.Proofs.Run

namespace Errand

/-! ## Free properties -/

namespace Properties

theorem get?_insert (name : Text) (value : Value) (ps : Properties) (n : Text) :
    (insert name value ps).get? n = if name = n then some value else ps.get? n := by
  induction ps with
  | nil => rfl
  | cons p ps ih =>
    obtain ⟨k, v⟩ := p
    rw [insert]
    by_cases hname : k = name
    · subst hname
      rw [if_pos rfl, get?, get?]
      by_cases hk : k = n
      · rw [if_pos hk, if_pos hk]
      · rw [if_neg hk, if_neg hk, if_neg hk]
    · rw [if_neg hname, get?, get?, ih]
      by_cases hk : k = n
      · rw [if_pos hk, if_neg (fun e => hname (hk.trans e.symm)), if_pos hk]
      · rw [if_neg hk, if_neg hk]

theorem get?_update_eq_none_iff {ps more : Properties} {n : Text} :
    (ps.update more).get? n = none ↔ ps.get? n = none ∧ more.get? n = none := by
  induction more generalizing ps with
  | nil => simp [update, get?]
  | cons p more ih =>
    obtain ⟨k, v⟩ := p
    show (update (insert k v ps) more).get? n = none ↔ _
    rw [ih, get?_insert, get?]
    by_cases hk : k = n
    · simp [hk]
    · simp [hk]

end Properties

/-! ## The invariant -/

namespace Store
variable {s : Store}

/-- No free property is found in the place of a relation. -/
structure Unshadowed (s : Store) : Prop where
  locations : ∀ l ∈ s.locations, l.properties.get? "room".text = none
  objects : ∀ o ∈ s.objects, o.properties.get? "category".text = none ∨ o.category.isSome = true

theorem unshadowed_empty : Unshadowed empty where
  locations := by intro l hl; cases hl
  objects := by intro o ho; cases ho

theorem Unshadowed.putRoom (h : Unshadowed s) (name : Name) (properties : Properties) :
    Unshadowed (s.putRoom name properties).1 := by
  obtain ⟨rooms, i, hrun, -⟩ := putRoom_eq s name properties
  rw [hrun]
  exact ⟨h.locations, h.objects⟩

theorem Unshadowed.putNamed {put : Store → Name → Store × Nat} (h : Unshadowed s)
    (hput : ∀ name, Unshadowed (put s name).1) (name? : Option Name) : Unshadowed (s.putNamed put name?).1 := by
  rcases name? with _ | name
  · exact h
  · rw [Store.putNamed]
    split
    · exact h
    · exact hput name

theorem Unshadowed.putRoomOf (h : Unshadowed s) (room : Option Name) : Unshadowed (s.putRoomOf room).1 := by
  rw [putRoomOf_eq]
  exact h.putNamed (fun name => h.putRoom name []) room

theorem Unshadowed.putLocation (h : Unshadowed s) (name : Name) (room : Option Name) (placement beacon : Bool)
    {properties : Properties} (hproperties : properties.get? "room".text = none) :
    Unshadowed (s.putLocation name room placement beacon properties).1 := by
  obtain ⟨locations, i, hrun, hput⟩ := putLocation_eq s name room placement beacon properties
  have hbefore := h.putRoomOf room
  rw [hrun]
  refine ⟨?_, hbefore.objects⟩
  intro l hl
  rcases hput.mem hl with rfl | hl | ⟨l', hl', rfl⟩
  · exact hproperties
  · exact hbefore.locations l hl
  · exact Properties.get?_update_eq_none_iff.mpr ⟨hbefore.locations l' hl', hproperties⟩

theorem Unshadowed.putLocationOf (h : Unshadowed s) (room location : Option Name) :
    Unshadowed (s.putLocationOf room location).1 := by
  rw [putLocationOf_eq]
  exact h.putNamed (fun name => h.putLocation name room true false rfl) location

theorem Unshadowed.putCategory (h : Unshadowed s) (name : Name) (location room : Option Name) (properties : Properties) :
    Unshadowed (s.putCategory name location room properties).1 := by
  obtain ⟨categories, i, hrun, -⟩ := putCategory_eq s name location room properties
  have hbefore := h.putLocationOf room location
  rw [hrun]
  exact ⟨hbefore.locations, hbefore.objects⟩

theorem Unshadowed.putCategoryOf (h : Unshadowed s) (category : Option Name) :
    Unshadowed (s.putCategoryOf category).1 := by
  rw [putCategoryOf_eq]
  exact h.putNamed (fun name => h.putCategory name none none []) category

theorem putCategoryOf_isSome {name : Name} (h : name.isEmpty = false) : (s.putCategoryOf (some name)).2.isSome = true := by
  rw [Store.putCategoryOf, h]
  rfl

theorem Unshadowed.putObject (h : Unshadowed s) (name : Name) {category : Option Name} (kind : ObjectKind) (tier : Tier)
    {properties : Properties}
    (hproperties : properties.get? "category".text = none ∨ ∃ c, category = some c ∧ c.isEmpty = false) :
    Unshadowed (s.putObject name category kind tier properties).1 := by
  obtain ⟨objects, i, hrun, hput⟩ := putObject_eq s name category kind tier properties
  have hbefore := h.putCategoryOf category
  have hnew : properties.get? "category".text = none ∨ (s.putCategoryOf category).2.isSome = true := by
    rcases hproperties with hnone | ⟨c, rfl, hc⟩
    · exact Or.inl hnone
    · exact Or.inr (putCategoryOf_isSome hc)
  rw [hrun]
  refine ⟨hbefore.locations, ?_⟩
  intro o ho
  rcases hput.mem ho with rfl | ho | ⟨o', ho', rfl⟩
  · exact hnew
  · exact hbefore.objects o ho
  · -- a category that was there stays, or gives way to another one
    dsimp only
    rw [Properties.get?_update_eq_none_iff, Option.isSome_or, Bool.or_eq_true]
    rcases hnew with hnew | hnew
    · rcases hbefore.objects o' ho' with hold | hold
      · exact Or.inl ⟨hold, hnew⟩
      · exact Or.inr (Or.inr hold)
    · exact Or.inr (Or.inl hnew)

/-! ## Additions -/

end Store

/-- An addition that brings no free property into the place of a relation. -/
def Addition.IsPlain : Addition → Prop
  | .location _ _ _ _ properties => properties.get? "room".text = none
  | .object _ related _ _ properties => properties.get? "category".text = none ∨ related.isEmpty = false
  | _ => True

theorem Value.asRelated_of_nonempty {v : Value} (hv : v.isEmpty = false) {name : Option Name}
    (h : v.asRelated = .ok name) : ∃ n, name = some n ∧ n.isEmpty = false := by
  rw [asRelated, hv] at h
  obtain ⟨n, hn, rfl⟩ := exists_of_map_eq_ok h
  refine ⟨n, rfl, ?_⟩
  unfold asName at hn
  split at hn
  · cases hn
    exact hv
  · cases hn
    exact hv
  · cases hn

namespace Store
variable {s : Store}

theorem Unshadowed.addNamed {before : Store} (h : Unshadowed before) {name : Value} {put : Name → Store × Nat}
    (hput : ∀ n, Unshadowed (put n).1) : Unshadowed (addNamed before name put).1 := by
  rw [Store.addNamed]
  rcases name.asName with f | n
  · exact h
  · exact hput n

theorem Unshadowed.add (h : Unshadowed s) {a : Addition} (ha : a.IsPlain) : Unshadowed (s.add a).1 := by
  cases a with
  | room name properties => exact h.addNamed fun n => h.putRoom n properties
  | location name room placement beacon properties =>
    show Unshadowed (s.addLocation name room placement beacon properties).1
    rw [addLocation]
    rcases room.asRelated with f | room
    · exact h
    · exact (h.putRoomOf room).addNamed fun n => h.putLocation n room placement beacon ha
  | category name location room properties =>
    show Unshadowed (s.addCategory name location room properties).1
    rw [addCategory]
    split
    · exact h.addNamed fun n => h.putCategory n none none properties
    · rcases room.asRelated with f | room
      · exact h
      rcases location.asName with f | location
      · exact h.putRoomOf room
      · exact (h.putLocationOf room (some location)).addNamed fun n => h.putCategory n (some location) room properties
  | object name category kind tier properties =>
    show Unshadowed (s.addObject name category kind tier properties).1
    rw [addObject]
    rcases hcategory : category.asRelated with f | related
    · exact h
    · refine (h.putCategoryOf related).addNamed fun n => h.putObject n _ _ ?_
      rcases ha with hnone | hset
      · exact Or.inl hnone
      · exact Or.inr (Value.asRelated_of_nonempty hset hcategory)
  | person name gender properties => exact h.addNamed fun n => ⟨h.locations, h.objects⟩
  | gesture name tier properties => exact h.addNamed fun n => ⟨h.locations, h.objects⟩
  | question question answer tier properties => exact ⟨h.locations, h.objects⟩

theorem Unshadowed.addAll (h : Unshadowed s) {additions : List Addition} (hall : ∀ a ∈ additions, a.IsPlain) :
    Unshadowed (s.addAll additions).1 := by
  induction additions generalizing s with
  | nil => exact h
  | cons a rest ih =>
    obtain ⟨ha, hrest⟩ := List.forall_mem_cons.mp hall
    have hfirst := h.add ha
    rw [Store.addAll]
    rcases hadd : s.add a with ⟨s', f | i⟩ <;> rw [hadd] at hfirst
    · exact hfirst
    · exact ih hfirst hrest

end Store

/-! ## Plans -/

/-- What is true of all additions of a plan, and of the fault that ended it, if any. -/
structure Plan.Meets (P : Addition → Prop) (Q : LoadFault → Prop) (p : Plan) : Prop where
  additions : ∀ a ∈ p.additions, P a
  fault : ∀ f, p.fault = some f → Q f

/-- All additions of a plan are plain. -/
def Plan.IsPlain (p : Plan) : Prop := ∀ a ∈ p.additions, a.IsPlain

namespace Plan
variable {P : Addition → Prop} {Q : LoadFault → Prop}

theorem meets_done : done.Meets P Q where
  additions := by intro a ha; cases ha
  fault := by intro f hf; cases hf

theorem meets_failed {f : LoadFault} (h : Q f) : (failed f).Meets P Q where
  additions := by intro a ha; cases ha
  fault := by
    intro e he
    cases he
    exact h

theorem meets_one {a : Addition} (h : P a) : (one a).Meets P Q where
  additions := by
    intro b hb
    cases List.mem_singleton.mp hb
    exact h
  fault := by intro f hf; cases hf

theorem Meets.andThen {p q : Plan} (hp : p.Meets P Q) (hq : q.Meets P Q) : (p.andThen q).Meets P Q := by
  rw [Plan.andThen]
  split
  · rename_i f hf
    refine ⟨hp.additions, ?_⟩
    intro e he
    cases he
    exact hp.fault _ hf
  · refine ⟨?_, hq.fault⟩
    intro a ha
    exact (List.mem_append.mp ha).elim (hp.additions a) (hq.additions a)

theorem meets_inOrder {ps : List Plan} (h : ∀ p ∈ ps, p.Meets P Q) : (inOrder ps).Meets P Q := by
  induction ps with
  | nil => exact meets_done
  | cons p ps ih =>
    obtain ⟨hp, hps⟩ := List.forall_mem_cons.mp h
    exact hp.andThen (ih hps)

theorem meets_ofExcept {α : Type} {r : Except LoadFault α} {f : α → Plan} (herror : ∀ e, r = .error e → Q e)
    (hok : ∀ x, r = .ok x → (f x).Meets P Q) : (ofExcept r f).Meets P Q := by
  rcases r with e | x
  · exact meets_failed (herror e rfl)
  · exact hok x rfl

end Plan

/-! ## Entries -/

namespace Loading

theorem written_ok {o : Option Text} {t : Text} (h : written o = .ok t) : o = some t := by
  cases o with
  | none => cases h
  | some u =>
    cases h
    rfl

/-- The fields of an entry are no free properties of it, and no other key looks like one. -/
theorem extras_get? {fields : List Text} {e : Entries} {ps : Properties} (h : extras fields e = .ok ps) {key : Text}
    (hkey : key ∈ fields) (hstart : ∀ c ∈ key.head?, Scalar.isStart c = false) : ps.get? key = none := by
  refine foldlM_keeps (P := fun ps : Properties => ps.get? key = none) ?_ rfl h
  rintro acc ⟨k, v⟩ hmem acc' hacc hstep
  have hextra := (List.mem_filter.mp hmem).2
  obtain ⟨name, hname, hinsert⟩ := exists_of_bind_eq_ok hstep
  cases hinsert
  rw [Properties.get?_insert, if_neg, hacc]
  rintro rfl
  rw [Scalar.eq_text_of_display? (written_ok hname) hstart] at hextra
  simp [hkey] at hextra

theorem fields_ok {part nameKey : String} {others : List String} {item : Value} {f : Fields}
    (h : fields part nameKey others item = .ok f) : entry part.text nameKey.text item = .ok f.entries ∧
      extras ((nameKey :: others).map String.text) f.entries = .ok f.extras ∧
      nameOf nameKey.text f.entries = .ok f.name := by
  rw [fields] at h
  obtain ⟨entries, hentry, h⟩ := exists_of_bind_eq_ok h
  obtain ⟨properties, hextras, h⟩ := exists_of_bind_eq_ok h
  obtain ⟨name, hname, h⟩ := exists_of_bind_eq_ok h
  cases h
  exact ⟨hentry, hextras, hname⟩

/-- An entry is a bare name, or a mapping in which what stands under the key of its name is not
    empty. -/
theorem entry_ok {part nameKey : Text} {item : Value} {e : Entries} (h : entry part nameKey item = .ok e) :
    (∃ t, item.opened = .text t ∧ e = [(.text nameKey, .text t)]) ∨
      item.opened = .map e ∧ ∃ v, Value.lookup? nameKey e = some v ∧ v.isEmpty = false := by
  unfold entry at h
  split at h
  · rename_i t ht
    cases h
    exact Or.inl ⟨t, ht, rfl⟩
  · rename_i entries hentries
    split at h
    · cases h
    · rename_i hname
      cases h
      refine Or.inr ⟨hentries, ?_⟩
      rcases hv : Value.lookup? nameKey e with _ | v
      · rw [hv] at hname
        exact absurd rfl hname
      · rw [hv] at hname
        exact ⟨v, rfl, Bool.eq_false_iff.mpr hname⟩
  · cases h

/-- An entry that has a list of others in it has a name. -/
theorem name_ne_nil {part nameKey : String} {others : List String} {item : Value} {f : Fields}
    (h : fields part nameKey others item = .ok f) {key : Text} (hkey : nameKey.text ≠ key) {fault : Text → LoadFault}
    {items : List Value} (hitems : listUnder f.entries key fault = .ok items) {inner : Value} (hinner : inner ∈ items) :
    f.name ≠ [] := by
  obtain ⟨hentry, -, hname⟩ := fields_ok h
  rcases entry_ok hentry with ⟨t, -, ht⟩ | ⟨-, v, hv, hempty⟩
  · rw [ht, listUnder, Value.lookup?, if_neg hkey] at hitems
    cases hitems
    cases hinner
  · rw [nameOf, field, hv] at hname
    exact Value.display?_ne_nil hempty (written_ok hname)

/-! ## Sections -/

section Meets
variable {P : Addition → Prop} {Q : LoadFault → Prop}

theorem meets_planOf {part nameKey : String} {others : List String} {item : Value} {make : Fields → Plan}
    (herror : ∀ e, fields part nameKey others item = .error e → Q e)
    (hok : ∀ f, fields part nameKey others item = .ok f → (make f).Meets P Q) :
    (planOf part nameKey others item make).Meets P Q := Plan.meets_ofExcept herror hok

theorem meets_inOrder_map {items : List Value} {make : Value → Plan} (h : ∀ item ∈ items, (make item).Meets P Q) :
    (Plan.inOrder (items.map make)).Meets P Q := Plan.meets_inOrder (List.forall_mem_map.mpr h)

theorem meets_section {data : Entries} {key : String} {make : Value → Plan}
    (herror : ∀ e, listUnder data key.text (.notList key.text) = .error e → Q e)
    (hok : ∀ items, listUnder data key.text (.notList key.text) = .ok items → ∀ item ∈ items, (make item).Meets P Q) :
    (sectionPlan data key make).Meets P Q :=
  Plan.meets_ofExcept herror fun items hitems => meets_inOrder_map (hok items hitems)

end Meets

/-- A plan in which all additions are plain, whatever fault ends it. -/
abbrev MeetsPlain (p : Plan) : Prop := p.Meets Addition.IsPlain fun _ => True

theorem meetsPlain_planOf {part nameKey : String} {others : List String} {item : Value} {make : Fields → Plan}
    (h : ∀ f, fields part nameKey others item = .ok f → MeetsPlain (make f)) :
    MeetsPlain (planOf part nameKey others item make) := meets_planOf (fun _ _ => trivial) h

theorem meetsPlain_locations (items : List Value) (room : Value) : MeetsPlain (locations items room) := by
  refine meets_inOrder_map fun item _ => meetsPlain_planOf fun f hf => Plan.meets_one ?_
  obtain ⟨-, hextras, -⟩ := fields_ok hf
  exact extras_get? hextras (by decide) (by decide)

theorem meetsPlain_room (item : Value) : MeetsPlain (room item) := by
  refine meetsPlain_planOf fun f _ => Plan.Meets.andThen (Plan.meets_one ?_) ?_
  · trivial
  · exact Plan.meets_ofExcept (fun _ _ => trivial) fun items _ => meetsPlain_locations items _

theorem meetsPlain_category (item : Value) : MeetsPlain (category item) := by
  refine meetsPlain_planOf fun f hf => Plan.Meets.andThen (Plan.meets_one ?_)
    (Plan.meets_ofExcept (fun _ _ => trivial) ?_)
  · trivial
  · intro items hitems
    refine meets_inOrder_map fun inner hinner => meetsPlain_planOf fun _ _ => Plan.meets_one (Or.inr ?_)
    have hname := name_ne_nil hf (by decide) hitems hinner
    exact List.isEmpty_eq_false_iff.mpr hname

theorem meetsPlain_objectAlone (item : Value) : MeetsPlain (objectAlone item) := by
  refine meetsPlain_planOf fun f hf => Plan.meets_one (Or.inl ?_)
  obtain ⟨-, hextras, -⟩ := fields_ok hf
  exact extras_get? hextras (by decide) (by decide)

theorem meetsPlain_section {data : Entries} {key : String} {make : Value → Plan} (h : ∀ item, MeetsPlain (make item)) :
    MeetsPlain (sectionPlan data key make) :=
  meets_section (fun _ _ => trivial) fun _ _ item _ => h item

theorem isPlain_plan (data : Value) : (plan data).IsPlain := by
  suffices h : MeetsPlain (plan data) from h.additions
  rw [plan]
  split
  · exact Plan.meets_done
  · split
    · refine Plan.meets_inOrder ?_
      simp only [List.forall_mem_cons]
      refine ⟨meetsPlain_section meetsPlain_room, meetsPlain_section fun item => meetsPlain_locations [item] .null,
        meetsPlain_section meetsPlain_category, meetsPlain_section meetsPlain_objectAlone, meetsPlain_section ?_,
        meetsPlain_section ?_, meetsPlain_section ?_, fun p hp => by cases hp⟩
      · exact fun item => meetsPlain_planOf fun _ _ => Plan.meets_one trivial
      · exact fun item => meetsPlain_planOf fun _ _ => Plan.meets_one trivial
      · exact fun item => meetsPlain_planOf fun _ _ =>
          Plan.meets_ofExcept (fun _ _ => trivial) fun _ _ => Plan.meets_one trivial
    · exact Plan.meets_failed trivial

end Loading

/-! ## Loaded stores -/

namespace Store
variable {s : Store}

theorem Unshadowed.load (h : Unshadowed s) (data : Value) : Unshadowed (s.load data).1 := by
  have hadded := h.addAll (Loading.isPlain_plan data)
  rw [Store.load]
  rcases hadd : s.addAll (Loading.plan data).additions with ⟨s', _ | f⟩ <;> rw [hadd] at hadded
  · exact hadded
  · exact hadded

/-- A store that data was loaded into, piece after piece; a piece at fault leaves what came
    before the fault. -/
def ofData (datas : List Value) : Store := empty.after (datas.map .load)

theorem loaded_sound (datas : List Value) : (ofData datas).Sound := after_sound _

theorem loaded_unshadowed (datas : List Value) : (ofData datas).Unshadowed := by
  suffices h : ∀ s : Store, s.Unshadowed → (s.after (datas.map .load)).Unshadowed from h empty unshadowed_empty
  induction datas with
  | nil => exact fun s hs => hs
  | cons data datas ih => exact fun s hs => ih _ (hs.load data)

end Store

end Errand
