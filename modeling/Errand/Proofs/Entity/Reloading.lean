/-
  Errand.Proofs.Entity.Reloading — the same data loaded a second time.

  Whether data can be read does not depend on the store, and what it comes to is a list of
  additions in which no property is given twice (`Loading.plan_ended`); made again, these leave
  all tables as they are.
  - `load_again`: the same data loads again, rooms, locations, categories and objects stay as
    they are, and people, gestures and questions are those of its entries once more.
-/

import Errand.Proofs.Entity.Replaying

namespace Errand

/-! ## Plans -/

namespace Plan
variable {p q : Plan}

theorem andThen_ended (h : (p.andThen q).fault = none) :
    p.fault = none ∧ q.fault = none ∧ (p.andThen q).additions = p.additions ++ q.additions := by
  rw [andThen] at h ⊢
  split at h
  · cases h
  · rename_i hp
    exact ⟨hp, h, rfl⟩

theorem inOrder_ended {ps : List Plan} (h : (inOrder ps).fault = none) :
    (∀ p ∈ ps, p.fault = none) ∧ (inOrder ps).additions = ps.flatMap additions := by
  induction ps with
  | nil => exact ⟨(by intro p hp; cases hp), rfl⟩
  | cons p ps ih =>
    obtain ⟨hp, hps, hadditions⟩ := andThen_ended h
    obtain ⟨hall, hmore⟩ := ih hps
    exact ⟨List.forall_mem_cons.mpr ⟨hp, hall⟩, by rw [List.flatMap_cons, ← hmore]; exact hadditions⟩

theorem ofExcept_ended {α : Type} {r : Except LoadFault α} {f : α → Plan} (h : (ofExcept r f).fault = none) :
    ∃ x, r = .ok x ∧ ofExcept r f = f x := by
  rcases r with e | x
  · cases h
  · exact ⟨x, rfl, rfl⟩

end Plan

namespace Loading

theorem extras_distinct {names : List Text} {e : Entries} {ps : Properties} (h : extras names e = .ok ps) :
    ps.IsDistinct := by
  refine foldlM_keeps (P := Properties.IsDistinct) ?_ Properties.isDistinct_nil h
  rintro acc ⟨k, v⟩ - acc' hacc hstep
  obtain ⟨name, -, hinsert⟩ := exists_of_bind_eq_ok hstep
  cases hinsert
  exact hacc.insert name v

theorem fields_distinct {part nameKey : String} {others : List String} {item : Value} {f : Fields}
    (h : fields part nameKey others item = .ok f) : f.extras.IsDistinct := extras_distinct (fields_ok h).2.1

/-- A plan in which no addition brings a property twice and all are to tables. -/
abbrev MeetsTables (p : Plan) : Prop := p.Meets (fun a => a.properties.IsDistinct ∧ a.entered = .empty) fun _ => True

theorem meetsTables_locations (items : List Value) (room : Value) : MeetsTables (locations items room) :=
  meets_inOrder_map fun _ _ => meets_planOf (fun _ _ => trivial) fun _ hf => Plan.meets_one ⟨fields_distinct hf, rfl⟩

theorem meetsTables_room (item : Value) : MeetsTables (room item) := by
  refine meets_planOf (fun _ _ => trivial) fun f hf => Plan.Meets.andThen (Plan.meets_one ⟨fields_distinct hf, rfl⟩) ?_
  exact Plan.meets_ofExcept (fun _ _ => trivial) fun items _ => meetsTables_locations items _

theorem meetsTables_category (item : Value) : MeetsTables (category item) := by
  refine meets_planOf (fun _ _ => trivial) fun f hf => Plan.Meets.andThen (Plan.meets_one ⟨fields_distinct hf, rfl⟩) ?_
  refine Plan.meets_ofExcept (fun _ _ => trivial) fun items _ => meets_inOrder_map fun _ _ => ?_
  exact meets_planOf (fun _ _ => trivial) fun _ hg => Plan.meets_one ⟨fields_distinct hg, rfl⟩

theorem meetsTables_objectAlone (item : Value) : MeetsTables (objectAlone item) :=
  meets_planOf (fun _ _ => trivial) fun _ hf => Plan.meets_one ⟨fields_distinct hf, rfl⟩

/-! ### People, gestures and questions -/

/-- The person that an entry describes. -/
def personOf (item : Value) : Except LoadFault Person := do
  let f ← fields "names" "name" ["gender"] item
  return ⟨(Name.text f.name).trim, Person.genderOf (field "gender".text (.text "female".text) f.entries), f.extras⟩

/-- The gesture that an entry describes. -/
def gestureOf (item : Value) : Except LoadFault Gesture := do
  let f ← fields "gestures" "name" ["tier", "difficulty"] item
  return ⟨(Name.text f.name).trim, lightTier (tierField (.text "easy".text) f.entries), f.extras⟩

/-- The question that an entry describes. -/
def questionOf (item : Value) : Except LoadFault Question := do
  let f ← fields "questions" "question" ["answer", "tier", "difficulty"] item
  let answer ← written (field "answer".text (.text openAnswer) f.entries).display?
  return ⟨.text f.name, .text answer, lightTier (tierField (.text "easy".text) f.entries), f.extras⟩

/-- The plan of an entry comes to one thing that is always added, which the entry describes. -/
structure Enters {α : Type} (make : Value → Plan) (read : Value → Except LoadFault α) (only : α → Store) : Prop where
  distinct : ∀ item, ∀ a ∈ (make item).additions, a.properties.IsDistinct
  entered : ∀ item, (make item).fault = none →
    ∃ x, read item = .ok x ∧ Addition.allEntered (make item).additions = only x

theorem enters_person : Enters person personOf .ofPerson where
  distinct item := by
    rw [person, planOf]
    rcases hf : fields "names" "name" ["gender"] item with e | f
    · intro a ha
      cases ha
    · exact List.forall_mem_singleton.mpr (fields_distinct hf)
  entered item h := by
    rw [person, planOf] at h ⊢
    obtain ⟨f, hf, hplan⟩ := Plan.ofExcept_ended h
    rw [hplan, personOf, hf]
    exact ⟨_, rfl, rfl⟩

theorem enters_gesture : Enters gesture gestureOf .ofGesture where
  distinct item := by
    rw [gesture, planOf]
    rcases hf : fields "gestures" "name" ["tier", "difficulty"] item with e | f
    · intro a ha
      cases ha
    · exact List.forall_mem_singleton.mpr (fields_distinct hf)
  entered item h := by
    rw [gesture, planOf] at h ⊢
    obtain ⟨f, hf, hplan⟩ := Plan.ofExcept_ended h
    rw [hplan, gestureOf, hf]
    exact ⟨_, rfl, rfl⟩

theorem enters_question : Enters question questionOf .ofQuestion where
  distinct item := by
    rw [question, planOf]
    rcases hf : fields "questions" "question" ["answer", "tier", "difficulty"] item with e | f
    · intro a ha
      cases ha
    · dsimp only [Plan.ofExcept]
      split
      · exact List.forall_mem_singleton.mpr (fields_distinct hf)
      · intro a ha
        cases ha
  entered item h := by
    rw [question, planOf] at h ⊢
    obtain ⟨f, hf, hplan⟩ := Plan.ofExcept_ended h
    rw [hplan] at h ⊢
    obtain ⟨answer, hanswer, hplan⟩ := Plan.ofExcept_ended h
    rw [hplan, questionOf, hf]
    refine ⟨⟨.text f.name, .text answer, lightTier (tierField (.text "easy".text) f.entries), f.extras⟩, ?_, rfl⟩
    change (written _ >>= _) = _
    rw [hanswer]
    rfl

/-! ### Sections -/

/-- A section that is read to the end comes to its entries one by one. -/
theorem section_ended {e : Entries} {key : String} {make : Value → Plan} (h : (sectionPlan e key make).fault = none) :
    sectionPlan e key make = .inOrder ((itemsUnder key.text e).map make) := by
  obtain ⟨items, hitems, hplan⟩ := Plan.ofExcept_ended h
  rw [listUnder_ok hitems]
  exact hplan

theorem section_tables {e : Entries} {key : String} {make : Value → Plan} (hmake : ∀ item, MeetsTables (make item))
    (h : (sectionPlan e key make).fault = none) :
    (∀ a ∈ (sectionPlan e key make).additions, a.properties.IsDistinct) ∧
      Addition.allEntered (sectionPlan e key make).additions = .empty := by
  rw [section_ended h]
  have hmeets : MeetsTables (.inOrder ((itemsUnder key.text e).map make)) := meets_inOrder_map fun item _ => hmake item
  exact ⟨fun a ha => (hmeets.additions a ha).1, Addition.allEntered_eq_empty fun a ha => (hmeets.additions a ha).2⟩

/-- Entries that are read to the end are described one by one. -/
theorem section_entered {α : Type} {make : Value → Plan} {read : Value → Except LoadFault α} {only : α → Store}
    (hmake : Enters make read only) {e : Entries} {key : String} (h : (sectionPlan e key make).fault = none) :
    (∀ a ∈ (sectionPlan e key make).additions, a.properties.IsDistinct) ∧ ∃ xs,
      (itemsUnder key.text e).mapM read = .ok xs ∧
      Addition.allEntered (sectionPlan e key make).additions = (xs.map only).foldr .andThen .empty := by
  have hitems := section_ended h
  rw [hitems] at h ⊢
  refine ⟨?_, ?_⟩
  · have hmeets : (Plan.inOrder ((itemsUnder key.text e).map make)).Meets (fun a => a.properties.IsDistinct) fun _ => True :=
      meets_inOrder_map fun item _ => ⟨hmake.distinct item, fun _ _ => trivial⟩
    exact hmeets.additions
  · clear hitems
    generalize itemsUnder key.text e = items at h
    induction items with
    | nil => exact ⟨[], rfl, rfl⟩
    | cons item items ih =>
      obtain ⟨hfirst, hrest, hadditions⟩ := Plan.andThen_ended h
      obtain ⟨x, hx, hentered⟩ := hmake.entered item hfirst
      obtain ⟨xs, hxs, hothers⟩ := ih hrest
      refine ⟨x :: xs, ?_, ?_⟩
      · rw [List.mapM_cons, hx, hxs]
        rfl
      · rw [List.map_cons, Plan.inOrder, hadditions, Addition.allEntered_append, hentered, hothers]
        rfl

theorem foldr_ofPerson (people : List Person) :
    (people.map Store.ofPerson).foldr .andThen .empty = { Store.empty with people } := by
  induction people with
  | nil => rfl
  | cons p people ih =>
    rw [List.map_cons, List.foldr_cons, ih]
    rfl

theorem foldr_ofGesture (gestures : List Gesture) :
    (gestures.map Store.ofGesture).foldr .andThen .empty = { Store.empty with gestures } := by
  induction gestures with
  | nil => rfl
  | cons g gestures ih =>
    rw [List.map_cons, List.foldr_cons, ih]
    rfl

theorem foldr_ofQuestion (questions : List Question) :
    (questions.map Store.ofQuestion).foldr .andThen .empty = { Store.empty with questions } := by
  induction questions with
  | nil => rfl
  | cons q questions ih =>
    rw [List.map_cons, List.foldr_cons, ih]
    rfl

/-- The people, gestures and questions that the entries of data describe. -/
structure Describes (data : Value) (people : List Person) (gestures : List Gesture) (questions : List Question) : Prop where
  people : (itemsUnder "names".text (entriesOf data)).mapM personOf = .ok people
  gestures : (itemsUnder "gestures".text (entriesOf data)).mapM gestureOf = .ok gestures
  questions : (itemsUnder "questions".text (entriesOf data)).mapM questionOf = .ok questions

/-- Data that is read to the end brings no property twice, and what is always added is what
    its entries describe. -/
theorem plan_ended {data : Value} (h : (plan data).fault = none) :
    (∀ a ∈ (plan data).additions, a.properties.IsDistinct) ∧ ∃ people gestures questions,
      Describes data people gestures questions ∧
      Addition.allEntered (plan data).additions = ⟨[], [], [], [], people, gestures, questions⟩ := by
  by_cases hempty : data.isEmpty = true
  · have hnothing := entriesOf_of_isEmpty hempty
    rw [plan, if_pos hempty]
    refine ⟨(by intro a ha; cases ha), [], [], [], ⟨?_, ?_, ?_⟩, rfl⟩ <;> rw [hnothing] <;> rfl
  rw [plan, if_neg hempty] at h ⊢
  split at h
  · rename_i e he
    obtain rfl := entriesOf_opened he
    obtain ⟨hended, hadditions⟩ := Plan.inOrder_ended h
    simp only [List.forall_mem_cons] at hended
    obtain ⟨hrooms, hlocations, hcategories, hobjects, hnames, hgestures, hquestions, -⟩ := hended
    obtain ⟨hrooms, hnoRooms⟩ := section_tables meetsTables_room hrooms
    obtain ⟨hlocations, hnoLocations⟩ := section_tables (fun item => meetsTables_locations [item] .null) hlocations
    obtain ⟨hcategories, hnoCategories⟩ := section_tables meetsTables_category hcategories
    obtain ⟨hobjects, hnoObjects⟩ := section_tables meetsTables_objectAlone hobjects
    obtain ⟨hnames, people, hpeople, hallPeople⟩ := section_entered enters_person hnames
    obtain ⟨hgestures, gestures, hgestureOf, hallGestures⟩ := section_entered enters_gesture hgestures
    obtain ⟨hquestions, questions, hquestionOf, hallQuestions⟩ := section_entered enters_question hquestions
    rw [hadditions]
    simp only [List.flatMap_cons, List.flatMap_nil, List.forall_mem_append]
    refine ⟨⟨hrooms, hlocations, hcategories, hobjects, hnames, hgestures, hquestions, fun a ha => by cases ha⟩,
      people, gestures, questions, ⟨hpeople, hgestureOf, hquestionOf⟩, ?_⟩
    simp only [Addition.allEntered_append, hnoRooms, hnoLocations, hnoCategories, hnoObjects, hallPeople, hallGestures,
      hallQuestions, foldr_ofPerson, foldr_ofGesture, foldr_ofQuestion]
    simp [Store.andThen, Store.empty, Addition.allEntered]
  · cases h

end Loading

namespace Store

theorem load_fst (s : Store) (data : Value) : (s.load data).1 = (s.addAll (Loading.plan data).additions).1 := by
  rw [load]
  rcases s.addAll (Loading.plan data).additions with ⟨s', _ | f⟩ <;> rfl

/-- Whether data loads does not depend on the store. -/
theorem load_eq_none_iff {s : Store} {data : Value} :
    (s.load data).2 = none ↔ (∀ a ∈ (Loading.plan data).additions, a.IsNamed) ∧ (Loading.plan data).fault = none := by
  rw [← addAll_eq_none_iff (s := s), load]
  rcases s.addAll (Loading.plan data).additions with ⟨s', _ | f⟩ <;> simp

/-- Data that loads loads a second time. Rooms, locations, categories and objects stay as they
    are then, and there are the people, gestures and questions of its entries once more. -/
theorem load_again (s : Store) {data : Value} (h : (s.load data).2 = none) :
    let once := (s.load data).1
    let twice := (once.load data).1
    (once.load data).2 = none ∧
      twice.rooms = once.rooms ∧ twice.locations = once.locations ∧ twice.categories = once.categories ∧
      twice.objects = once.objects ∧
      ∃ people gestures questions, Loading.Describes data people gestures questions ∧
        once.people = s.people ++ people ∧ twice.people = once.people ++ people ∧
        once.gestures = s.gestures ++ gestures ∧ twice.gestures = once.gestures ++ gestures ∧
        once.questions = s.questions ++ questions ∧ twice.questions = once.questions ++ questions := by
  obtain ⟨hnamed, hended⟩ := load_eq_none_iff.mp h
  obtain ⟨hdistinct, people, gestures, questions, hdescribes, hentered⟩ := Loading.plan_ended hended
  obtain ⟨log, _, hlog, honce, hagain⟩ := addAll_replays hnamed hdistinct s
  have hfirst : (s.load data).1 = s.write log := (load_fst s data).trans (congrArg Prod.fst honce)
  have hsecond : ((s.write log).load data).1 = (s.write log).write log :=
    (load_fst _ data).trans (congrArg Prod.fst (hagain _ (under_refl _)))
  have hloads : ((s.write log).load data).2 = none := load_eq_none_iff.mpr ⟨hnamed, hended⟩
  rw [hentered] at hlog
  obtain ⟨hrooms, hlocations, hcategories, hobjects⟩ := hlog.write_again s
  dsimp only
  rw [hfirst, hsecond]
  refine ⟨hloads, hrooms, hlocations, hcategories, hobjects, people, gestures, questions, hdescribes, ?_⟩
  simp only [write, hlog.people, hlog.gestures, hlog.questions, and_self]

/-- A desk that is mentioned three times, in two rooms, a cup that moves from the drinks to the
    toys and has two colours in turn, and a person. -/
def movedCup : Value :=
  .map [(.text "rooms".text, .list [.map [(.text "name".text, .text "hall".text),
      (.text "locations".text, .list [.text "desk".text, .map [(.text "name".text, .text " Desk".text),
        (.text "beacon".text, .bool true), (.text "room".text, .text "den".text)]])]]),
    (.text "categories".text, .list [
      .map [(.text "name".text, .text "drinks".text), (.text "location".text, .text "desk".text),
        (.text "room".text, .text "HALL".text),
        (.text "objects".text, .list [.map [(.text "name".text, .text "cup".text), (.text "colour".text, .text "red".text)]])],
      .map [(.text "name".text, .text "toys".text), (.text "objects".text, .list [.map [(.text "name".text, .text "Cup".text),
        (.text "type".text, .text "alike".text), (.text "colour".text, .text "blue".text)]])]]),
    (.text "names".text, .list [.text "Ada".text])]

theorem load_again_movedCup : (empty.load movedCup).2 = none ∧
    ((empty.load movedCup).1.load movedCup).1.objects = (empty.load movedCup).1.objects ∧
    ((empty.load movedCup).1.objects.map fun o => (o.name, o.kind, o.category)) = [(.text "cup".text, .alike, some 1)] ∧
    ((empty.load movedCup).1.locations.map fun l => (l.room, l.isPlacement, l.isBeacon)) =
      [(some 0, true, false), (some 1, false, true)] := by
  have hruns : (empty.load movedCup).2.isNone = true ∧
      ((empty.load movedCup).1.objects.map fun o => (o.name, o.kind, o.category)) = [(.text "cup".text, .alike, some 1)] ∧
      ((empty.load movedCup).1.locations.map fun l => (l.room, l.isPlacement, l.isBeacon)) =
        [(some 0, true, false), (some 1, false, true)] := by decide +kernel
  obtain ⟨hnone, hcup, hdesk⟩ := hruns
  have hload := Option.isNone_iff_eq_none.mp hnone
  obtain ⟨-, -, -, -, hobjects, -⟩ := load_again empty hload
  exact ⟨hload, hobjects, hcup, hdesk⟩

end Store

end Errand
