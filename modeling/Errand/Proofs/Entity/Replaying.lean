/-
  Errand.Proofs.Entity.Replaying — additions that are made a second time.

  The second time begins in another store and goes through other stores than the first one,
  so no single addition does nothing in it. But each addition comes down to records that are
  written into tables, and the places that these hold are found and not made up: once a
  record is in its place, the same name leads there again. So what is written the second time
  is what was written the first time (`Replays`), and tables settle under that
  (`Logs.write_again`).
-/

import Errand.Proofs.Entity.Merging
import Errand.Proofs.Entity.Reporting

namespace Errand

/-! ## Logs -/

namespace Store
variable {s t u log : Store}

/-- The records of one store after those of another, as they stand. -/
def andThen (log more : Store) : Store where
  rooms := log.rooms ++ more.rooms
  locations := log.locations ++ more.locations
  categories := log.categories ++ more.categories
  objects := log.objects ++ more.objects
  people := log.people ++ more.people
  gestures := log.gestures ++ more.gestures
  questions := log.questions ++ more.questions

/-- A store into which the records of another one, a log, are written one by one. -/
def write (s log : Store) : Store where
  rooms := log.rooms.foldl Room.merging.put s.rooms
  locations := log.locations.foldl Location.merging.put s.locations
  categories := log.categories.foldl Category.merging.put s.categories
  objects := log.objects.foldl Object.merging.put s.objects
  people := s.people ++ log.people
  gestures := s.gestures ++ log.gestures
  questions := s.questions ++ log.questions

/-- A log of one record. -/
def ofRoom (r : Room) : Store := { empty with rooms := [r] }
def ofLocation (l : Location) : Store := { empty with locations := [l] }
def ofCategory (c : Category) : Store := { empty with categories := [c] }
def ofObject (o : Object) : Store := { empty with objects := [o] }
def ofPerson (p : Person) : Store := { empty with people := [p] }
def ofGesture (g : Gesture) : Store := { empty with gestures := [g] }
def ofQuestion (q : Question) : Store := { empty with questions := [q] }

theorem write_empty (s : Store) : s.write empty = s := by simp [write, empty]

theorem write_andThen (s log more : Store) : s.write (log.andThen more) = (s.write log).write more := by
  simp [write, andThen, List.foldl_append]

/-- A name that leads to a record in one store leads to that place in the other. -/
structure Under (s t : Store) : Prop where
  rooms : ∀ k i, Room.merging.place? k s.rooms = some i → Room.merging.place? k t.rooms = some i
  locations : ∀ k i, Location.merging.place? k s.locations = some i → Location.merging.place? k t.locations = some i
  categories : ∀ k i, Category.merging.place? k s.categories = some i → Category.merging.place? k t.categories = some i

theorem under_refl (s : Store) : s.Under s := ⟨fun _ _ => id, fun _ _ => id, fun _ _ => id⟩

theorem Under.trans (h : s.Under t) (h' : t.Under u) : s.Under u where
  rooms k i hi := h'.rooms k i (h.rooms k i hi)
  locations k i hi := h'.locations k i (h.locations k i hi)
  categories k i hi := h'.categories k i (h.categories k i hi)

theorem under_write (s log : Store) : s.Under (s.write log) where
  rooms _ _ h := Room.merging.place?_putAll h _
  locations _ _ h := Location.merging.place?_putAll h _
  categories _ _ h := Category.merging.place?_putAll h _

/-- A log of which the records are as a table takes them, and of those always added the same
    as in `entered`. -/
structure Logs (entered log : Store) : Prop where
  rooms : ∀ r ∈ log.rooms, Room.merging.merge r r = r
  locations : ∀ l ∈ log.locations, Location.merging.merge l l = l
  categories : ∀ c ∈ log.categories, Category.merging.merge c c = c
  objects : ∀ o ∈ log.objects, Object.merging.merge o o = o
  people : log.people = entered.people
  gestures : log.gestures = entered.gestures
  questions : log.questions = entered.questions

theorem logs_empty : Logs empty empty where
  rooms := by intro r hr; cases hr
  locations := by intro l hl; cases hl
  categories := by intro c hc; cases hc
  objects := by intro o ho; cases ho
  people := rfl
  gestures := rfl
  questions := rfl

theorem Logs.andThen {entered entered' log' : Store} (h : Logs entered log) (h' : Logs entered' log') :
    Logs (entered.andThen entered') (log.andThen log') where
  rooms r hr := (List.mem_append.mp hr).elim (h.rooms r) (h'.rooms r)
  locations l hl := (List.mem_append.mp hl).elim (h.locations l) (h'.locations l)
  categories c hc := (List.mem_append.mp hc).elim (h.categories c) (h'.categories c)
  objects o ho := (List.mem_append.mp ho).elim (h.objects o) (h'.objects o)
  people := congrArg₂ _ h.people h'.people
  gestures := congrArg₂ _ h.gestures h'.gestures
  questions := congrArg₂ _ h.questions h'.questions

/-- Writing a log again leaves the tables as they are. -/
theorem Logs.write_again {entered : Store} (h : Logs entered log) (s : Store) :
    ((s.write log).write log).rooms = (s.write log).rooms ∧
      ((s.write log).write log).locations = (s.write log).locations ∧
      ((s.write log).write log).categories = (s.write log).categories ∧
      ((s.write log).write log).objects = (s.write log).objects :=
  ⟨Room.merging.putAll_again h.rooms _, Location.merging.putAll_again h.locations _,
    Category.merging.putAll_again h.categories _, Object.merging.putAll_again h.objects _⟩

/-! ## Operations that can be done again -/

/-- An operation that writes a log and gives an answer, and does the same again in every store
    where the names in that log lead to the same places. -/
def Replays {β : Type} (entered : Store) (f : Store → Store × β) : Prop :=
  ∀ s, ∃ log b, Logs entered log ∧ f s = (s.write log, b) ∧ ∀ t, (s.write log).Under t → f t = (t.write log, b)

section Replays
variable {β γ : Type} {entered entered' : Store} {f : Store → Store × β}

theorem replays_pure (b : β) : Replays empty fun s => (s, b) :=
  fun s => ⟨empty, b, logs_empty, by rw [write_empty], fun t _ => by rw [write_empty]⟩

/-- A log that does not depend on the store, and an answer that is a place found in it. -/
theorem replays_write {answer : Store → β} (h : Logs entered log)
    (hanswer : ∀ s t, (s.write log).Under t → answer t = answer s) : Replays entered fun s => (s.write log, answer s) :=
  fun s => ⟨log, answer s, h, rfl, fun t ht => congrArg (Prod.mk _) (hanswer s t ht)⟩

theorem Replays.bind {g : β → Store → Store × γ} (hf : Replays entered f) (hg : ∀ b, Replays entered' (g b)) :
    Replays (entered.andThen entered') fun s => g (f s).2 (f s).1 := by
  intro s
  obtain ⟨log, b, hlog, honce, hagain⟩ := hf s
  obtain ⟨more, c, hmore, honce', hagain'⟩ := hg b (s.write log)
  refine ⟨log.andThen more, c, hlog.andThen hmore, ?_, ?_⟩
  · dsimp only
    rw [honce, honce', write_andThen]
  · intro t ht
    rw [write_andThen] at ht
    have hfirst := hagain t ((under_write _ more).trans ht)
    dsimp only
    rw [hfirst, hagain' (t.write log) (ht.trans (under_write t log)), write_andThen]

theorem Replays.forget (h : Replays entered f) : Replays entered fun s => ((f s).1, ()) := by
  intro s
  obtain ⟨log, b, hlog, honce, hagain⟩ := h s
  exact ⟨log, (), hlog, congrArg (·.1, ()) honce, fun t ht => congrArg (·.1, ()) (hagain t ht)⟩

end Replays

/-! ## Records that are put -/

theorem placeOf?_eq {α : Type} {M : Merging α Name} {nameOf : α → Name} (hkey : ∀ x, M.key x = (nameOf x).lower)
    (l : List α) (name : Name) : placeOf? (l.map nameOf) name = M.place? name.key l := by
  rw [placeOf?, List.findIdx?_map]
  exact M.place?_eq (fun x => by rw [hkey]; exact beq_iff_eq) l

theorem putRoom_write (s : Store) (name : Name) (properties : Properties) :
    s.putRoom name properties = (s.write (ofRoom ⟨name.trim, properties⟩),
      (Room.merging.place? name.key s.rooms).getD s.rooms.length) := by
  have hplace : placeOf? (s.rooms.map (·.name)) name = Room.merging.place? name.key s.rooms :=
    placeOf?_eq (fun _ => rfl) s.rooms name
  have hput := Room.merging.put_eq s.rooms ⟨name.trim, properties⟩
  simp only [putRoom, hplace, write, ofRoom, empty, List.foldl_cons, List.foldl_nil, List.append_nil, hput]
  change _ = (({ s with rooms := (Room.merging.place? name.key s.rooms).elim _ _ } : Store), _)
  cases Room.merging.place? name.key s.rooms <;> rfl

theorem putLocation_write (s : Store) (name : Name) (room : Option Name) (placement beacon : Bool)
    (properties : Properties) :
    s.putLocation name room placement beacon properties =
      let before := s.putRoomOf room
      (before.1.write (ofLocation ⟨name.trim, before.2, placement, beacon, properties⟩),
        (Location.merging.place? (name.key, before.2) before.1.locations).getD before.1.locations.length) := by
  rw [putLocation]
  generalize s.putRoomOf room = before
  obtain ⟨s, room⟩ := before
  have hplace : (s.locations.findIdx? fun l => l.name.lower == name.key && l.room == room) =
      Location.merging.place? (name.key, room) s.locations :=
    Location.merging.place?_eq (fun l => by simp [Location.merging]) s.locations
  have hput := Location.merging.put_eq s.locations ⟨name.trim, room, placement, beacon, properties⟩
  simp only [hplace, write, ofLocation, empty, List.foldl_cons, List.foldl_nil, List.append_nil, hput]
  change _ = (({ s with locations := (Location.merging.place? (name.key, room) s.locations).elim _ _ } : Store), _)
  cases Location.merging.place? (name.key, room) s.locations <;> rfl

theorem putCategory_write (s : Store) (name : Name) (location room : Option Name) (properties : Properties) :
    s.putCategory name location room properties =
      let before := s.putLocationOf room location
      (before.1.write (ofCategory ⟨name.trim, before.2, properties⟩),
        (Category.merging.place? name.key before.1.categories).getD before.1.categories.length) := by
  rw [putCategory]
  generalize s.putLocationOf room location = before
  obtain ⟨s, location⟩ := before
  have hplace : placeOf? (s.categories.map (·.name)) name = Category.merging.place? name.key s.categories :=
    placeOf?_eq (fun _ => rfl) s.categories name
  have hput := Category.merging.put_eq s.categories ⟨name.trim, location, properties⟩
  simp only [hplace, write, ofCategory, empty, List.foldl_cons, List.foldl_nil, List.append_nil, hput]
  change _ = (({ s with categories := (Category.merging.place? name.key s.categories).elim _ _ } : Store), _)
  cases Category.merging.place? name.key s.categories <;> rfl

theorem putObject_write (s : Store) (name : Name) (category : Option Name) (kind : ObjectKind) (tier : Tier)
    (properties : Properties) :
    (s.putObject name category kind tier properties).1 =
      let before := s.putCategoryOf category
      before.1.write (ofObject ⟨name.trim, kind, tier, before.2, properties⟩) := by
  rw [putObject]
  generalize s.putCategoryOf category = before
  obtain ⟨s, category⟩ := before
  have hplace : placeOf? (s.objects.map (·.name)) name = Object.merging.place? name.key s.objects :=
    placeOf?_eq (fun _ => rfl) s.objects name
  have hput := Object.merging.put_eq s.objects ⟨name.trim, kind, tier, category, properties⟩
  simp only [hplace, write, ofObject, empty, List.foldl_cons, List.foldl_nil, List.append_nil, hput]
  change _ = ({ s with objects := (Object.merging.place? name.key s.objects).elim _ _ } : Store)
  cases Object.merging.place? name.key s.objects <;> rfl

theorem putPerson_write (s : Store) (name : Name) (gender : Gender) (properties : Properties) :
    (s.putPerson name gender properties).1 = s.write (ofPerson ⟨name.trim, gender, properties⟩) := by
  simp [putPerson, write, ofPerson, empty]

theorem putGesture_write (s : Store) (name : Name) (tier : Tier) (properties : Properties) :
    (s.putGesture name tier properties).1 = s.write (ofGesture ⟨name.trim, tier, properties⟩) := by
  simp [putGesture, write, ofGesture, empty]

theorem putQuestion_write (s : Store) (question answer : Value) (tier : Tier) (properties : Properties) :
    (s.putQuestion question answer tier properties).1 = s.write (ofQuestion ⟨question, answer, tier, properties⟩) := by
  simp [putQuestion, write, ofQuestion, empty]

section Put
variable {properties : Properties}

theorem putRoom_replays (name : Name) (h : properties.IsDistinct) :
    Replays empty fun s => s.putRoom name properties := by
  simp only [putRoom_write]
  refine replays_write { logs_empty with rooms := List.forall_mem_singleton.mpr (Room.merge_self h) } ?_
  intro s t ht
  have hplace : Room.merging.place? name.key t.rooms = _ :=
    ht.rooms _ _ (Room.merging.place?_put_self s.rooms ⟨name.trim, properties⟩)
  rw [hplace]
  rfl

theorem putNamed_replays {put : Store → Name → Store × Nat} (h : ∀ name, Replays empty fun s => put s name)
    (name? : Option Name) : Replays empty fun s => s.putNamed put name? := by
  rcases name? with _ | name
  · exact replays_pure none
  · by_cases hempty : name.isEmpty = true
    · simp only [putNamed, if_pos hempty]
      exact replays_pure none
    · simp only [putNamed, if_neg hempty]
      exact (h name).bind fun place => replays_pure (some place)

theorem putRoomOf_replays (room : Option Name) : Replays empty fun s => s.putRoomOf room := by
  simp only [putRoomOf_eq]
  exact putNamed_replays (fun name => putRoom_replays name Properties.isDistinct_nil) room

theorem putLocation_replays (name : Name) (room : Option Name) (placement beacon : Bool) (h : properties.IsDistinct) :
    Replays empty fun s => s.putLocation name room placement beacon properties := by
  have hwrite (place : Option Nat) : Replays empty fun s =>
      (s.write (ofLocation ⟨name.trim, place, placement, beacon, properties⟩),
        (Location.merging.place? (name.key, place) s.locations).getD s.locations.length) := by
    refine replays_write { logs_empty with locations := List.forall_mem_singleton.mpr (Location.merge_self h) } ?_
    intro s t ht
    have hplace : Location.merging.place? (name.key, place) t.locations = _ :=
      ht.locations _ _ (Location.merging.place?_put_self s.locations ⟨name.trim, place, placement, beacon, properties⟩)
    rw [hplace]
    rfl
  simp only [putLocation_write]
  exact (putRoomOf_replays room).bind hwrite

theorem putLocationOf_replays (room location : Option Name) : Replays empty fun s => s.putLocationOf room location := by
  simp only [putLocationOf_eq]
  exact putNamed_replays (fun name => putLocation_replays name room true false Properties.isDistinct_nil) location

theorem putCategory_replays (name : Name) (location room : Option Name) (h : properties.IsDistinct) :
    Replays empty fun s => s.putCategory name location room properties := by
  have hwrite (place : Option Nat) : Replays empty fun s =>
      (s.write (ofCategory ⟨name.trim, place, properties⟩),
        (Category.merging.place? name.key s.categories).getD s.categories.length) := by
    refine replays_write { logs_empty with categories := List.forall_mem_singleton.mpr (Category.merge_self h) } ?_
    intro s t ht
    have hplace : Category.merging.place? name.key t.categories = _ :=
      ht.categories _ _ (Category.merging.place?_put_self s.categories ⟨name.trim, place, properties⟩)
    rw [hplace]
    rfl
  simp only [putCategory_write]
  exact (putLocationOf_replays room location).bind hwrite

theorem putCategoryOf_replays (category : Option Name) : Replays empty fun s => s.putCategoryOf category := by
  simp only [putCategoryOf_eq]
  exact putNamed_replays (fun name => putCategory_replays name none none Properties.isDistinct_nil) category

theorem putObject_replays (name : Name) (category : Option Name) (kind : ObjectKind) (tier : Tier)
    (h : properties.IsDistinct) :
    Replays empty fun s => ((s.putObject name category kind tier properties).1, ()) := by
  have hwrite (place : Option Nat) : Replays empty fun s =>
      (s.write (ofObject ⟨name.trim, kind, tier, place, properties⟩), ()) :=
    replays_write { logs_empty with objects := List.forall_mem_singleton.mpr (Object.merge_self h) } fun _ _ _ => rfl
  simp only [putObject_write]
  exact (putCategoryOf_replays category).bind hwrite

end Put

end Store

/-! ## Additions -/

namespace Addition

/-- The free properties that an addition brings. -/
def properties : Addition → Properties
  | .room _ ps | .location _ _ _ _ ps | .category _ _ _ ps | .object _ _ _ _ ps => ps
  | .person _ _ ps | .gesture _ _ ps | .question _ _ _ ps => ps

/-- What an addition puts into the lists to which it is always added. -/
def entered : Addition → Store
  | .person name gender ps =>
    match name.asName with
    | .ok n => .ofPerson ⟨n.trim, Person.genderOf gender, ps⟩
    | .error _ => .empty
  | .gesture name tier ps =>
    match name.asName with
    | .ok n => .ofGesture ⟨n.trim, lightTier tier, ps⟩
    | .error _ => .empty
  | .question words answer tier ps => .ofQuestion ⟨words, answer, lightTier tier, ps⟩
  | _ => .empty

/-- What additions put into these lists, in order. -/
def allEntered : List Addition → Store
  | [] => .empty
  | a :: rest => a.entered.andThen (allEntered rest)

end Addition

namespace Store

theorem addNamed_ok {before : Store} {name : Value} {put : Name → Store × Nat} {n : Name} (h : name.asName = .ok n) :
    (addNamed before name put).1 = (put n).1 := by
  rw [addNamed, h]

theorem add_replays {a : Addition} (hnamed : a.IsNamed) (hdistinct : a.properties.IsDistinct) :
    Replays a.entered fun s => ((s.add a).1, ()) := by
  cases a with
  | room name ps =>
    obtain ⟨n, hn⟩ := hnamed
    simp only [add, addNamed_ok hn]
    exact (putRoom_replays n hdistinct).forget
  | location name room placement beacon ps =>
    obtain ⟨hroom, n, hn⟩ := hnamed
    obtain ⟨r, hr⟩ := Value.asRelated_ok_iff.mpr hroom
    simp only [add, addLocation, hr, addNamed_ok hn]
    exact (putLocation_replays n r placement beacon hdistinct).forget
  | category name location room ps =>
    obtain ⟨hrelated, n, hn⟩ := hnamed
    by_cases hempty : location.isEmpty = true
    · simp only [add, addCategory, if_pos hempty, addNamed_ok hn]
      exact (putCategory_replays n none none hdistinct).forget
    · obtain ⟨hroom, l, hl⟩ := hrelated.resolve_left hempty
      obtain ⟨r, hr⟩ := Value.asRelated_ok_iff.mpr hroom
      simp only [add, addCategory, if_neg hempty, hr, hl, addNamed_ok hn]
      exact (putCategory_replays n (some l) r hdistinct).forget
  | object name category kind tier ps =>
    obtain ⟨hcategory, n, hn⟩ := hnamed
    obtain ⟨c, hc⟩ := Value.asRelated_ok_iff.mpr hcategory
    simp only [add, addObject, hc, addNamed_ok hn]
    exact putObject_replays n c (Object.kindOf kind) (Object.tierOf (Object.kindOf kind) tier) hdistinct
  | person name gender ps =>
    obtain ⟨n, hn⟩ := hnamed
    simp only [add, Addition.entered, hn, addNamed_ok hn, putPerson_write]
    exact replays_write { logs_empty with people := rfl } fun _ _ _ => rfl
  | gesture name tier ps =>
    obtain ⟨n, hn⟩ := hnamed
    simp only [add, Addition.entered, hn, addNamed_ok hn, putGesture_write]
    exact replays_write { logs_empty with gestures := rfl } fun _ _ _ => rfl
  | question question answer tier ps =>
    simp only [add, Addition.entered, putQuestion_write]
    exact replays_write { logs_empty with questions := rfl } fun _ _ _ => rfl

theorem addAll_replays {additions : List Addition} (hnamed : ∀ a ∈ additions, a.IsNamed)
    (hdistinct : ∀ a ∈ additions, a.properties.IsDistinct) :
    Replays (Addition.allEntered additions) fun s => ((s.addAll additions).1, ()) := by
  induction additions with
  | nil => exact replays_pure ()
  | cons a rest ih =>
    obtain ⟨ha, hrest⟩ := List.forall_mem_cons.mp hnamed
    obtain ⟨hdistinct, hdistincts⟩ := List.forall_mem_cons.mp hdistinct
    have hcons (s : Store) : (s.addAll (a :: rest)).1 = ((s.add a).1.addAll rest).1 := by
      obtain ⟨i, hi⟩ := (add_ok_iff (s := s)).mpr ha
      rw [addAll]
      rcases hadd : s.add a with ⟨s', f | j⟩
      · rw [hadd] at hi
        cases hi
      · rfl
    simp only [hcons]
    exact (add_replays ha hdistinct).bind fun _ => ih hrest hdistincts

end Store

namespace Addition

theorem allEntered_append (as bs : List Addition) : allEntered (as ++ bs) = (allEntered as).andThen (allEntered bs) := by
  induction as with
  | nil => rfl
  | cons a as ih => simp [allEntered, ih, Store.andThen]

theorem allEntered_eq_empty {as : List Addition} (h : ∀ a ∈ as, a.entered = .empty) : allEntered as = .empty := by
  induction as with
  | nil => rfl
  | cons a as ih =>
    obtain ⟨ha, has⟩ := List.forall_mem_cons.mp h
    rw [allEntered, ha, ih has]
    rfl

end Addition

end Errand
