/-
  Errand.Proofs.Entity.Integrity — the invariant of a store.

  A store holds places instead of records, so each place has to be good and stay so. What
  an addition does comes down to records put into one list after another, the related ones
  first, and each such step keeps the invariant (`Sound`) and leaves what is there in its
  place (`Grew`). An addition may end in a fault after some of these steps, and data after
  some additions; that is why each step is shown to do so, and not the whole alone.

  Proved of every store that comes of additions and data, whatever faults these end in
  (`after_intact`): it is sound, it goes on growing, the place that an addition returns is
  that of what was added, and no relation misses. A question is the one entity that is not
  called as it was given (`question_keeps_blanks`).
-/

import Errand.Entity.Loading
import Errand.Proofs.Entity.Records

namespace Errand

/-! ## The invariant -/

/-- What a record may become when it is added again. -/
def Room.Follows (r r' : Room) : Prop := r'.name = r.name

structure Location.Follows (l l' : Location) : Prop where
  name : l'.name = l.name
  room : l'.room = l.room
  isPlacement : l.isPlacement = true → l'.isPlacement = true
  isBeacon : l.isBeacon = true → l'.isBeacon = true

def Category.Follows (c c' : Category) : Prop := c'.name = c.name

def Object.Follows (o o' : Object) : Prop := o'.name = o.name

namespace Store

/-- Every place that a record holds is a good one, and no two records are to be the same. -/
structure Sound (s : Store) : Prop where
  rooms : (s.rooms.map fun r => r.name.lower).Nodup
  locations : (s.locations.map fun l => (l.name.lower, l.room)).Nodup
  categories : (s.categories.map fun c => c.name.lower).Nodup
  objects : (s.objects.map fun o => o.name.lower).Nodup
  roomHeld : ∀ l ∈ s.locations, ∀ i ∈ l.room, i < s.rooms.length
  /-- Where objects of a category are put, they can be put. -/
  placed : ∀ c ∈ s.categories, ∀ i ∈ c.location, ∃ l, s.locations[i]? = some l ∧ l.isPlacement = true
  categoryHeld : ∀ o ∈ s.objects, ∀ i ∈ o.category, i < s.categories.length

/-- What was there is still in its place. -/
structure Grew (s s' : Store) : Prop where
  rooms : Kept Room.Follows s.rooms s'.rooms
  locations : Kept Location.Follows s.locations s'.locations
  categories : Kept Category.Follows s.categories s'.categories
  objects : Kept Object.Follows s.objects s'.objects
  people : s.people <+: s'.people
  gestures : s.gestures <+: s'.gestures
  questions : s.questions <+: s'.questions

end Store

theorem Room.follows_refl (r : Room) : r.Follows r := rfl

theorem Category.follows_refl (c : Category) : c.Follows c := rfl

theorem Object.follows_refl (o : Object) : o.Follows o := rfl

theorem Location.follows_refl (l : Location) : l.Follows l := ⟨rfl, rfl, id, id⟩

theorem Location.Follows.trans {l l' l'' : Location} (h : l.Follows l') (h' : l'.Follows l'') : l.Follows l'' :=
  ⟨h'.name.trans h.name, h'.room.trans h.room, fun hl => h'.isPlacement (h.isPlacement hl),
    fun hl => h'.isBeacon (h.isBeacon hl)⟩

namespace Store
variable {s s' s'' : Store}

theorem grew_refl (s : Store) : Grew s s where
  rooms := .refl Room.follows_refl _
  locations := .refl Location.follows_refl _
  categories := .refl Category.follows_refl _
  objects := .refl Object.follows_refl _
  people := List.prefix_refl _
  gestures := List.prefix_refl _
  questions := List.prefix_refl _

theorem Grew.trans (h : Grew s s') (h' : Grew s' s'') : Grew s s'' where
  rooms := h.rooms.trans (fun _ _ _ e e' => Eq.trans e' e) h'.rooms
  locations := h.locations.trans (fun _ _ _ => Location.Follows.trans) h'.locations
  categories := h.categories.trans (fun _ _ _ e e' => Eq.trans e' e) h'.categories
  objects := h.objects.trans (fun _ _ _ e e' => Eq.trans e' e) h'.objects
  people := h.people.trans h'.people
  gestures := h.gestures.trans h'.gestures
  questions := h.questions.trans h'.questions

theorem sound_empty : Sound empty where
  rooms := List.nodup_nil
  locations := List.nodup_nil
  categories := List.nodup_nil
  objects := List.nodup_nil
  roomHeld := by intro l hl; cases hl
  placed := by intro c hc; cases hc
  categoryHeld := by intro o ho; cases ho

/-- A change of a store that keeps the invariant and takes nothing away. -/
structure Step (s s' : Store) : Prop where
  grew : Grew s s'
  sound : Sound s → Sound s'

theorem step_refl (s : Store) : Step s s := ⟨grew_refl s, id⟩

theorem Step.trans (h : Step s s') (h' : Step s' s'') : Step s s'' :=
  ⟨h.grew.trans h'.grew, fun hs => h'.sound (h.sound hs)⟩

/-! ## One list after another -/

theorem putAt_of_placeOf? {α : Type} (nameOf : α → Name) (name : Name) (new : α) (change : α → α) (l : List α) :
    PutAt (fun x => (nameOf x).lower) name.key new change l
      ((placeOf? (l.map nameOf) name).elim (l ++ [new]) fun i => l.modify i change)
      ((placeOf? (l.map nameOf) name).getD l.length) := by
  rw [placeOf?, List.findIdx?_map]
  exact putAt_of_findIdx? (fun _ => beq_iff_eq) new change l

theorem putRoom_eq (s : Store) (name : Name) (properties : Properties) :
    ∃ rooms i, s.putRoom name properties = ({ s with rooms }, i) ∧
      PutAt (fun r => r.name.lower) name.key ⟨name.trim, properties⟩
        (fun r => { r with properties := r.properties.update properties }) s.rooms rooms i := by
  refine ⟨_, _, ?_, putAt_of_placeOf? (fun r : Room => r.name) name _ _ s.rooms⟩
  rw [putRoom]
  cases placeOf? (s.rooms.map fun r => r.name) name <;> rfl

theorem putRoom_spec (s : Store) (name : Name) (properties : Properties) :
    Step s (s.putRoom name properties).1 ∧
      ∃ r, (s.putRoom name properties).1.rooms[(s.putRoom name properties).2]? = some r ∧ r.name.lower = name.key := by
  obtain ⟨rooms, i, hrun, hput⟩ := putRoom_eq s name properties
  rw [hrun]
  have hkept : Kept Room.Follows s.rooms rooms := hput.kept Room.follows_refl fun _ => rfl
  refine ⟨⟨{ grew_refl s with rooms := hkept }, ?_⟩, ?_⟩
  · intro hs
    refine { hs with rooms := hput.nodup rfl (fun _ => rfl) hs.rooms, roomHeld := ?_ }
    intro l hl i hi
    exact Nat.lt_of_lt_of_le (hs.roomHeld l hl i hi) hkept.length_le
  · obtain ⟨r, hr, rfl | ⟨r', hr', rfl⟩⟩ := hput.found
    · exact ⟨_, hr, rfl⟩
    · exact ⟨_, hr, hr'⟩

/-- What something is related to is put if it has a name. -/
def putNamed (s : Store) (put : Store → Name → Store × Nat) : Option Name → Store × Option Nat
  | none => (s, none)
  | some name => if name.isEmpty then (s, none) else ((put s name).1, some (put s name).2)

theorem putRoomOf_eq (s : Store) (room : Option Name) :
    s.putRoomOf room = s.putNamed (fun s name => s.putRoom name []) room := by
  cases room <;> rfl

theorem putLocationOf_eq (s : Store) (room location : Option Name) :
    s.putLocationOf room location = s.putNamed (fun s name => s.putLocation name room true false []) location := by
  cases location <;> rfl

theorem putCategoryOf_eq (s : Store) (category : Option Name) :
    s.putCategoryOf category = s.putNamed (fun s name => s.putCategory name none none []) category := by
  cases category <;> rfl

/-- It is put in its place, or nothing is changed. -/
theorem putNamed_spec {s : Store} {put : Store → Name → Store × Nat} (InPlace : Store → Nat → Prop)
    (h : ∀ name, Step s (put s name).1 ∧ InPlace (put s name).1 (put s name).2) (name? : Option Name) :
    Step s (s.putNamed put name?).1 ∧ ∀ i ∈ (s.putNamed put name?).2, InPlace (s.putNamed put name?).1 i := by
  have hnothing : Step s s ∧ ∀ i ∈ (none : Option Nat), InPlace s i := by
    refine ⟨step_refl s, ?_⟩
    intro i hi
    cases hi
  rcases name? with _ | name
  · exact hnothing
  rw [putNamed]
  by_cases hempty : name.isEmpty = true
  · rw [if_pos hempty]
    exact hnothing
  · rw [if_neg hempty]
    obtain ⟨hstep, hplace⟩ := h name
    refine ⟨hstep, ?_⟩
    intro i hi
    cases hi
    exact hplace

theorem putRoomOf_spec (s : Store) (room : Option Name) :
    Step s (s.putRoomOf room).1 ∧ ∀ i ∈ (s.putRoomOf room).2, i < (s.putRoomOf room).1.rooms.length := by
  rw [putRoomOf_eq]
  refine putNamed_spec (fun s i => i < s.rooms.length) (fun name => ?_) room
  obtain ⟨hstep, r, hr, -⟩ := putRoom_spec s name []
  exact ⟨hstep, (List.getElem?_eq_some_iff.mp hr).1⟩

theorem putLocation_eq (s : Store) (name : Name) (room : Option Name) (placement beacon : Bool)
    (properties : Properties) :
    ∃ locations i, s.putLocation name room placement beacon properties =
        ({ (s.putRoomOf room).1 with locations }, i) ∧
      PutAt (fun l => (l.name.lower, l.room)) (name.key, (s.putRoomOf room).2)
        ⟨name.trim, (s.putRoomOf room).2, placement, beacon, properties⟩
        (fun l => { l with
          isPlacement := l.isPlacement || placement
          isBeacon := l.isBeacon || beacon
          properties := l.properties.update properties }) (s.putRoomOf room).1.locations locations i := by
  rw [putLocation]
  generalize s.putRoomOf room = before
  obtain ⟨s, room⟩ := before
  have hsame (l : Location) : (l.name.lower == name.key && l.room == room) = true ↔
      (l.name.lower, l.room) = (name.key, room) := by simp
  refine ⟨_, _, ?_, putAt_of_findIdx? hsame _ _ s.locations⟩
  dsimp only
  cases s.locations.findIdx? (fun l => l.name.lower == name.key && l.room == room) <;> rfl

theorem putLocation_spec (s : Store) (name : Name) (room : Option Name) (placement beacon : Bool)
    (properties : Properties) :
    let r := s.putLocation name room placement beacon properties
    Step s r.1 ∧ ∃ l, r.1.locations[r.2]? = some l ∧ l.name.lower = name.key ∧
      (placement = true → l.isPlacement = true) := by
  obtain ⟨locations, i, hrun, hput⟩ := putLocation_eq s name room placement beacon properties
  obtain ⟨hbefore, hroom⟩ := putRoomOf_spec s room
  rw [hrun]
  generalize s.putRoomOf room = before at hput hbefore hroom
  obtain ⟨s₁, room⟩ := before
  dsimp only at hput hbefore hroom
  have hkept : Kept Location.Follows s₁.locations locations := by
    refine hput.kept Location.follows_refl ?_
    intro l
    refine ⟨rfl, rfl, ?_, ?_⟩
    · intro hl
      simp [hl]
    · intro hl
      simp [hl]
  refine ⟨hbefore.trans ⟨{ grew_refl s₁ with locations := hkept }, ?_⟩, ?_⟩
  · intro hs
    refine { hs with locations := hput.nodup rfl (fun _ => rfl) hs.locations, roomHeld := ?_, placed := ?_ }
    · intro l hl
      rcases hput.mem hl with rfl | hl | ⟨l', hl', rfl⟩
      · exact hroom
      · exact hs.roomHeld l hl
      · exact hs.roomHeld l' hl'
    · intro c hc i hi
      obtain ⟨l, hl, hplacement⟩ := hs.placed c hc i hi
      obtain ⟨l', hl', hfollows⟩ := hkept i l hl
      exact ⟨l', hl', hfollows.isPlacement hplacement⟩
  · obtain ⟨l, hl, rfl | ⟨l', hl', rfl⟩⟩ := hput.found
    · exact ⟨_, hl, rfl, id⟩
    · refine ⟨_, hl, congrArg Prod.fst hl', ?_⟩
      intro hplacement
      simp [hplacement]

theorem putLocationOf_spec (s : Store) (room location : Option Name) :
    Step s (s.putLocationOf room location).1 ∧ ∀ i ∈ (s.putLocationOf room location).2,
      ∃ l, (s.putLocationOf room location).1.locations[i]? = some l ∧ l.isPlacement = true := by
  rw [putLocationOf_eq]
  refine putNamed_spec (fun s i => ∃ l, s.locations[i]? = some l ∧ l.isPlacement = true) (fun name => ?_) location
  obtain ⟨hstep, l, hl, -, hplacement⟩ := putLocation_spec s name room true false []
  exact ⟨hstep, l, hl, hplacement rfl⟩

theorem putCategory_eq (s : Store) (name : Name) (location room : Option Name) (properties : Properties) :
    ∃ categories i, s.putCategory name location room properties =
        ({ (s.putLocationOf room location).1 with categories }, i) ∧
      PutAt (fun c => c.name.lower) name.key ⟨name.trim, (s.putLocationOf room location).2, properties⟩
        (fun c => { c with
          location := (s.putLocationOf room location).2.or c.location
          properties := c.properties.update properties })
        (s.putLocationOf room location).1.categories categories i := by
  rw [putCategory]
  generalize s.putLocationOf room location = before
  obtain ⟨s, location⟩ := before
  refine ⟨_, _, ?_, putAt_of_placeOf? (fun c : Category => c.name) name _ _ s.categories⟩
  dsimp only
  cases placeOf? (s.categories.map fun c => c.name) name <;> rfl

theorem putCategory_spec (s : Store) (name : Name) (location room : Option Name) (properties : Properties) :
    let r := s.putCategory name location room properties
    Step s r.1 ∧ ∃ c, r.1.categories[r.2]? = some c ∧ c.name.lower = name.key := by
  obtain ⟨categories, i, hrun, hput⟩ := putCategory_eq s name location room properties
  obtain ⟨hbefore, hlocation⟩ := putLocationOf_spec s room location
  rw [hrun]
  generalize s.putLocationOf room location = before at hput hbefore hlocation
  obtain ⟨s₁, location⟩ := before
  dsimp only at hput hbefore hlocation
  have hkept : Kept Category.Follows s₁.categories categories := hput.kept Category.follows_refl fun _ => rfl
  refine ⟨hbefore.trans ⟨{ grew_refl s₁ with categories := hkept }, ?_⟩, ?_⟩
  · intro hs
    refine { hs with categories := hput.nodup rfl (fun _ => rfl) hs.categories, placed := ?_, categoryHeld := ?_ }
    · intro c hc i hi
      rcases hput.mem hc with rfl | hc | ⟨c', hc', rfl⟩
      · exact hlocation i hi
      · exact hs.placed c hc i hi
      -- it moves to a location that is given, and else stays where it was
      · rcases Option.or_eq_some_iff.mp hi with hi | ⟨-, hi⟩
        · exact hlocation i hi
        · exact hs.placed c' hc' i hi
    · intro o ho i hi
      exact Nat.lt_of_lt_of_le (hs.categoryHeld o ho i hi) hkept.length_le
  · obtain ⟨c, hc, rfl | ⟨c', hc', rfl⟩⟩ := hput.found
    · exact ⟨_, hc, rfl⟩
    · exact ⟨_, hc, hc'⟩

theorem putCategoryOf_spec (s : Store) (category : Option Name) :
    Step s (s.putCategoryOf category).1 ∧
      ∀ i ∈ (s.putCategoryOf category).2, i < (s.putCategoryOf category).1.categories.length := by
  rw [putCategoryOf_eq]
  refine putNamed_spec (fun s i => i < s.categories.length) (fun name => ?_) category
  obtain ⟨hstep, c, hc, -⟩ := putCategory_spec s name none none []
  exact ⟨hstep, (List.getElem?_eq_some_iff.mp hc).1⟩

theorem putObject_eq (s : Store) (name : Name) (category : Option Name) (kind : ObjectKind) (tier : Tier)
    (properties : Properties) :
    ∃ objects i, s.putObject name category kind tier properties = ({ (s.putCategoryOf category).1 with objects }, i) ∧
      PutAt (fun o => o.name.lower) name.key ⟨name.trim, kind, tier, (s.putCategoryOf category).2, properties⟩
        (fun o => { o with
          kind
          tier
          category := (s.putCategoryOf category).2.or o.category
          properties := o.properties.update properties })
        (s.putCategoryOf category).1.objects objects i := by
  rw [putObject]
  generalize s.putCategoryOf category = before
  obtain ⟨s, category⟩ := before
  refine ⟨_, _, ?_, putAt_of_placeOf? (fun o : Object => o.name) name _ _ s.objects⟩
  dsimp only
  cases placeOf? (s.objects.map fun o => o.name) name <;> rfl

theorem putObject_spec (s : Store) (name : Name) (category : Option Name) (kind : ObjectKind) (tier : Tier)
    (properties : Properties) :
    let r := s.putObject name category kind tier properties
    Step s r.1 ∧ ∃ o, r.1.objects[r.2]? = some o ∧ o.name.lower = name.key := by
  obtain ⟨objects, i, hrun, hput⟩ := putObject_eq s name category kind tier properties
  obtain ⟨hbefore, hcategory⟩ := putCategoryOf_spec s category
  rw [hrun]
  generalize s.putCategoryOf category = before at hput hbefore hcategory
  obtain ⟨s₁, category⟩ := before
  dsimp only at hput hbefore hcategory
  have hkept : Kept Object.Follows s₁.objects objects := hput.kept Object.follows_refl fun _ => rfl
  refine ⟨hbefore.trans ⟨{ grew_refl s₁ with objects := hkept }, ?_⟩, ?_⟩
  · intro hs
    refine { hs with objects := hput.nodup rfl (fun _ => rfl) hs.objects, categoryHeld := ?_ }
    intro o ho i hi
    rcases hput.mem ho with rfl | ho | ⟨o', ho', rfl⟩
    · exact hcategory i hi
    · exact hs.categoryHeld o ho i hi
    · rcases Option.or_eq_some_iff.mp hi with hi | ⟨-, hi⟩
      · exact hcategory i hi
      · exact hs.categoryHeld o' ho' i hi
  · obtain ⟨o, ho, rfl | ⟨o', ho', rfl⟩⟩ := hput.found
    · exact ⟨_, ho, rfl⟩
    · exact ⟨_, ho, ho'⟩

theorem putPerson_step (s : Store) (name : Name) (gender : Gender) (properties : Properties) :
    Step s (s.putPerson name gender properties).1 :=
  ⟨{ grew_refl s with people := List.prefix_append _ _ }, fun hs => { hs with }⟩

theorem putGesture_step (s : Store) (name : Name) (tier : Tier) (properties : Properties) :
    Step s (s.putGesture name tier properties).1 :=
  ⟨{ grew_refl s with gestures := List.prefix_append _ _ }, fun hs => { hs with }⟩

theorem putQuestion_step (s : Store) (question answer : Value) (tier : Tier) (properties : Properties) :
    Step s (s.putQuestion question answer tier properties).1 :=
  ⟨{ grew_refl s with questions := List.prefix_append _ _ }, fun hs => { hs with }⟩

/-! ## Additions -/

/-- The entities of the kind that an addition adds to. -/
def entitiesLike (s : Store) : Addition → List Entity
  | .room .. => s.roomEntities
  | .location .. => s.locationEntities
  | .category .. => s.categoryEntities
  | .object .. => s.objectEntities
  | .person .. => s.personEntities
  | .gesture .. => s.gestureEntities
  | .question .. => s.questionEntities

end Store

/-- The entity has the name given, up to blanks at the ends and small or capital letters. -/
def Entity.IsCalled (e : Entity) (name : Value) : Prop := ∃ n, name.asName = .ok n ∧ e.name.lower = n.trim.lower

/-- The entity that an addition is about. A question has no name and is the one given. -/
def Addition.Denotes : Addition → Entity → Prop
  | .room name _, e => e.IsCalled name
  | .location name _ _ _ _, e => e.IsCalled name
  | .category name _ _ _, e => e.IsCalled name
  | .object name _ _ _ _, e => e.IsCalled name
  | .person name _ _, e => e.IsCalled name
  | .gesture name _ _, e => e.IsCalled name
  | .question words answer tier properties, e =>
    ∃ place, e = .question place ⟨words, answer, lightTier tier, properties⟩

namespace Store
variable {s s' s'' before : Store} {entities : Store → List Entity}

theorem entitiesOf_getElem? {α : Type} (make : Nat → α → Entity) (records : List α) (i : Nat) :
    (entitiesOf make records)[i]? = records[i]?.map (make i) := by
  rw [entitiesOf, List.getElem?_mapIdx]

theorem entitiesOf_found {α : Type} {make : Nat → α → Entity} {nameOf : α → Name} {records : List α} {i : Nat}
    {k : Name} (hmake : ∀ i x, (make i x).name = nameOf x) (h : ∃ x, records[i]? = some x ∧ (nameOf x).lower = k) :
    ∃ e, (entitiesOf make records)[i]? = some e ∧ e.name.lower = k := by
  obtain ⟨x, hx, hk⟩ := h
  exact ⟨make i x, by rw [entitiesOf_getElem?, hx]; rfl, by rw [hmake, hk]⟩

/-- What comes of an addition under a name: a step of the store and, unless it is at fault,
    the place of an entity of that name. -/
structure Adds (s : Store) (entities : Store → List Entity) (name : Value) (r : Store × Except AddFault Nat) :
    Prop where
  step : Step s r.1
  denotes : ∀ i, r.2 = .ok i → ∃ e, (entities r.1)[i]? = some e ∧ e.IsCalled name

theorem adds_fault {name : Value} (h : Step s s') (f : AddFault) : Adds s entities name (s', .error f) := by
  refine ⟨h, ?_⟩
  intro i hi
  cases hi

/-- A name at fault leaves the store as it was before, with all that came first. -/
theorem addNamed_adds {name : Value} {put : Name → Store × Nat} (hbefore : Step s before)
    (hput : ∀ n, Step s (put n).1 ∧ ∃ e, (entities (put n).1)[(put n).2]? = some e ∧ e.name.lower = n.key) :
    Adds s entities name (addNamed before name put) := by
  rw [addNamed]
  rcases hname : name.asName with f | n
  · exact adds_fault hbefore f
  · obtain ⟨hstep, e, he, hlower⟩ := hput n
    refine ⟨hstep, ?_⟩
    intro i hi
    cases hi
    exact ⟨e, he, n, hname, hlower⟩

theorem addRoom_adds (s : Store) (name : Value) (properties : Properties) :
    Adds s roomEntities name (addNamed s name fun name => s.putRoom name properties) := by
  refine addNamed_adds (step_refl s) ?_
  intro n
  obtain ⟨hstep, hfound⟩ := putRoom_spec s n properties
  exact ⟨hstep, entitiesOf_found (fun _ _ => rfl) hfound⟩

theorem addLocation_adds (s : Store) (name room : Value) (placement beacon : Bool) (properties : Properties) :
    Adds s locationEntities name (s.addLocation name room placement beacon properties) := by
  rw [addLocation]
  rcases room.asRelated with f | room
  · exact adds_fault (step_refl s) f
  refine addNamed_adds (putRoomOf_spec s room).1 ?_
  intro n
  obtain ⟨hstep, l, hl, hname, -⟩ := putLocation_spec s n room placement beacon properties
  exact ⟨hstep, entitiesOf_found (fun _ _ => rfl) ⟨l, hl, hname⟩⟩

theorem addCategory_adds (s : Store) (name location room : Value) (properties : Properties) :
    Adds s categoryEntities name (s.addCategory name location room properties) := by
  have hput (location room : Option Name) (n : Name) :
      Step s (s.putCategory n location room properties).1 ∧ ∃ e,
        (s.putCategory n location room properties).1.categoryEntities[(s.putCategory n location room properties).2]? =
          some e ∧ e.name.lower = n.key := by
    obtain ⟨hstep, hfound⟩ := putCategory_spec s n location room properties
    exact ⟨hstep, entitiesOf_found (fun _ _ => rfl) hfound⟩
  rw [addCategory]
  by_cases hempty : location.isEmpty = true
  · rw [if_pos hempty]
    exact addNamed_adds (step_refl s) (hput none none)
  · rw [if_neg hempty]
    rcases room.asRelated with f | room
    · exact adds_fault (step_refl s) f
    rcases location.asName with f | location
    · exact adds_fault (putRoomOf_spec s room).1 f
    · exact addNamed_adds (putLocationOf_spec s room (some location)).1 (hput (some location) room)

theorem addObject_adds (s : Store) (name category kind tier : Value) (properties : Properties) :
    Adds s objectEntities name (s.addObject name category kind tier properties) := by
  rw [addObject]
  rcases category.asRelated with f | category
  · exact adds_fault (step_refl s) f
  refine addNamed_adds (putCategoryOf_spec s category).1 ?_
  intro n
  obtain ⟨hstep, hfound⟩ := putObject_spec s n category (Object.kindOf kind) (Object.tierOf (Object.kindOf kind) tier)
    properties
  exact ⟨hstep, entitiesOf_found (fun _ _ => rfl) hfound⟩

theorem addPerson_adds (s : Store) (name : Value) (gender : Gender) (properties : Properties) :
    Adds s personEntities name (addNamed s name fun name => s.putPerson name gender properties) := by
  refine addNamed_adds (step_refl s) ?_
  intro n
  exact ⟨putPerson_step s n gender properties,
    entitiesOf_found (fun _ _ => rfl) ⟨_, List.getElem?_concat_length, rfl⟩⟩

theorem addGesture_adds (s : Store) (name : Value) (tier : Tier) (properties : Properties) :
    Adds s gestureEntities name (addNamed s name fun name => s.putGesture name tier properties) := by
  refine addNamed_adds (step_refl s) ?_
  intro n
  exact ⟨putGesture_step s n tier properties,
    entitiesOf_found (fun _ _ => rfl) ⟨_, List.getElem?_concat_length, rfl⟩⟩

theorem add_step (s : Store) (a : Addition) : Step s (s.add a).1 := by
  cases a with
  | room name properties => exact (addRoom_adds s name properties).step
  | location name room placement beacon properties => exact (addLocation_adds s name room placement beacon properties).step
  | category name location room properties => exact (addCategory_adds s name location room properties).step
  | object name category kind tier properties => exact (addObject_adds s name category kind tier properties).step
  | person name gender properties => exact (addPerson_adds s name (Person.genderOf gender) properties).step
  | gesture name tier properties => exact (addGesture_adds s name (lightTier tier) properties).step
  | question question answer tier properties => exact putQuestion_step s question answer (lightTier tier) properties

/-- The place that an addition returns is that of the entity it is about. -/
theorem add_denotes (s : Store) (a : Addition) {i : Nat} (h : (s.add a).2 = .ok i) :
    ∃ e, ((s.add a).1.entitiesLike a)[i]? = some e ∧ a.Denotes e := by
  cases a with
  | room name properties => exact (addRoom_adds s name properties).denotes i h
  | location name room placement beacon properties =>
    exact (addLocation_adds s name room placement beacon properties).denotes i h
  | category name location room properties => exact (addCategory_adds s name location room properties).denotes i h
  | object name category kind tier properties =>
    exact (addObject_adds s name category kind tier properties).denotes i h
  | person name gender properties => exact (addPerson_adds s name (Person.genderOf gender) properties).denotes i h
  | gesture name tier properties => exact (addGesture_adds s name (lightTier tier) properties).denotes i h
  | question question answer tier properties =>
    cases h
    refine ⟨_, ?_, s.questions.length, rfl⟩
    show (entitiesOf .question (s.questions ++ [_]))[s.questions.length]? = _
    rw [entitiesOf_getElem?, List.getElem?_concat_length]
    rfl

/-! ## Runs of a store -/

theorem addAll_step (s : Store) (additions : List Addition) : Step s (s.addAll additions).1 := by
  induction additions generalizing s with
  | nil => exact step_refl s
  | cons a rest ih =>
    have hfirst := add_step s a
    rw [addAll]
    rcases h : s.add a with ⟨s', f | i⟩ <;> rw [h] at hfirst
    · exact hfirst
    · exact hfirst.trans (ih s')

/-- Data that cannot be loaded to the end leaves additions behind, and nothing else. -/
theorem load_step (s : Store) (data : Value) : Step s (s.load data).1 := by
  have hadded := addAll_step s (Loading.plan data).additions
  rw [load]
  rcases h : s.addAll (Loading.plan data).additions with ⟨s', _ | f⟩ <;> rw [h] at hadded
  · exact hadded
  · exact hadded

/-- What is done to a store. -/
inductive Operation where
  | add (a : Addition)
  | load (data : Value)

/-- The store after an operation, which may have ended in a fault. -/
def Operation.run (s : Store) : Operation → Store
  | .add a => (s.add a).1
  | .load data => (s.load data).1

/-- The store after operations. -/
def after (s : Store) (ops : List Operation) : Store := ops.foldl Operation.run s

theorem Operation.run_step (s : Store) (op : Operation) : Step s (op.run s) := by
  cases op with
  | add a => exact add_step s a
  | load data => exact load_step s data

theorem after_step (s : Store) (ops : List Operation) : Step s (s.after ops) := by
  induction ops generalizing s with
  | nil => exact step_refl s
  | cons op rest ih => exact (op.run_step s).trans (ih (op.run s))

theorem after_append (s : Store) (ops more : List Operation) : s.after (ops ++ more) = (s.after ops).after more :=
  List.foldl_append

theorem after_sound (ops : List Operation) : (empty.after ops).Sound := (after_step empty ops).sound sound_empty

/-! ## Relations -/

/-- A relation that a record holds a place for is there. -/
structure Related (s : Store) : Prop where
  room : ∀ p, ∀ l ∈ s.locations, (s.room? (.location p l)).isSome = l.room.isSome
  category : ∀ p, ∀ o ∈ s.objects, (s.category? (.object p o)).isSome = o.category.isSome
  location : ∀ p, ∀ c ∈ s.categories, (s.usualLocation? (.category p c)).isSome = c.location.isSome
  /-- An object is where its category is. -/
  usualLocation : ∀ p, ∀ o ∈ s.objects, ∀ i c, s.category? (.object p o) = some (.category i c) →
    (s.usualLocation? (.object p o)).isSome = c.location.isSome

theorem isSome_bind_getElem? {α : Type} {records : List α} {make : Nat → α → Entity} {place : Option Nat}
    (h : ∀ i ∈ place, i < records.length) :
    (place.bind fun i => records[i]?.map (make i)).isSome = place.isSome := by
  rcases place with _ | i
  · rfl
  · rw [Option.bind_some, Option.isSome_map, List.getElem?_eq_getElem (h i rfl)]
    rfl

theorem Sound.related (h : Sound s) : Related s := by
  have hlocation (p : Nat) (c : Category) (hc : c ∈ s.categories) :
      (s.categoryLocation? (.category p c)).isSome = c.location.isSome := by
    refine isSome_bind_getElem? ?_
    intro i hi
    obtain ⟨l, hl, -⟩ := h.placed c hc i hi
    exact (List.getElem?_eq_some_iff.mp hl).1
  refine ⟨fun p l hl => isSome_bind_getElem? (h.roomHeld l hl), fun p o ho => isSome_bind_getElem? (h.categoryHeld o ho),
    hlocation, ?_⟩
  intro p o ho i c hc
  rw [usualLocation?, hc, Option.bind_some]
  refine hlocation i c ?_
  obtain ⟨j, -, hj⟩ := Option.bind_eq_some_iff.mp hc
  obtain ⟨c', hc', he⟩ := Option.map_eq_some_iff.mp hj
  cases he
  exact List.mem_of_getElem? hc'

/-- Whatever is done to a store and however it ends, the store is sound, what is in it stays,
    an addition finds the entity it is about, and a related entity is there. -/
theorem after_intact (ops : List Operation) :
    (empty.after ops).Sound ∧ (empty.after ops).Related ∧
      (∀ more, Grew (empty.after ops) (empty.after (ops ++ more))) ∧
      ∀ a i, ((empty.after ops).add a).2 = .ok i →
        ∃ e, (((empty.after ops).add a).1.entitiesLike a)[i]? = some e ∧ a.Denotes e := by
  refine ⟨after_sound ops, (after_sound ops).related, ?_, fun a i => add_denotes _ a⟩
  intro more
  rw [after_append]
  exact (after_step _ more).grew

/-- A question is not called by its words, and these keep the blanks at their ends. -/
theorem question_keeps_blanks :
    let why : Addition := .question (.text " Why? ".text) (.text Loading.openAnswer) .null []
    (empty.add why).2 = .ok 0 ∧ ∃ q : Question, ((empty.add why).1.entitiesLike why)[0]? = some (.question 0 q) ∧
      q.question = .text " Why? ".text ∧ (Entity.question 0 q).name.lower ≠ (Name.text " Why? ".text).trim.lower := by
  refine ⟨rfl, _, rfl, rfl, ?_⟩
  decide

end Store

end Errand
