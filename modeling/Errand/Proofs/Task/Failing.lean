/-
  Errand.Proofs.Task.Failing — what the work on a sentence can fail of.

  Binding fails at one group (`bindAll_error`): one of its clauses cannot be read, a test of an
  entity comes to a fault, or no entity is left (`FailsOf`). Most such faults are the
  sentence's own. What remains has to do with extremes: integers too large to be compared or
  too long to be read or written, and names of bytes that metadata refer to
  (`FailsOf.extreme`, `task_extreme`). Where the entities are tame and the sentence has short
  numerals, not even these come up (`task_ordinary`).
-/

import Errand.Proofs.Task.Constraints
import Errand.Proofs.Task.Numbers
import Errand.Proofs.Where.Testing
import Errand.Proofs.Wildcard.Numerals

namespace Errand

open Text (ShortNumerals)

/-! ## Lists -/

section
variable {α β ε : Type} {test : α → Except ε Bool} {l : List α} {f : ε}

theorem exists_of_mapM_error {g : α → Except ε β} {e : ε} (h : l.mapM g = .error e) :
    ∃ a ∈ l, g a = .error e := by
  induction l with
  | nil => cases h
  | cons a l ih =>
    rw [List.mapM_cons] at h
    rcases of_bind_eq_error h with h | ⟨b, -, h⟩
    · exact ⟨a, List.mem_cons_self, h⟩
    · rcases of_bind_eq_error h with h | ⟨bs, -, h⟩
      · obtain ⟨x, hx, hf⟩ := ih h
        exact ⟨x, List.mem_cons_of_mem _ hx, hf⟩
      · cases h

theorem exists_of_mem_mapM {g : α → Except ε β} {bs : List β} (h : l.mapM g = .ok bs)
    {b : β} (hb : b ∈ bs) : ∃ a ∈ l, g a = .ok b := by
  induction l generalizing bs with
  | nil =>
    cases h
    cases hb
  | cons a l ih =>
    rw [List.mapM_cons] at h
    obtain ⟨b', hb', h⟩ := exists_of_bind_eq_ok h
    obtain ⟨bs', hbs', h⟩ := exists_of_bind_eq_ok h
    cases h
    rcases List.mem_cons.mp hb with rfl | hb
    · exact ⟨a, List.mem_cons_self, hb'⟩
    · obtain ⟨x, hx, hf⟩ := ih hbs' hb
      exact ⟨x, List.mem_cons_of_mem _ hx, hf⟩

theorem takeFirst_error (h : takeFirst test l = .error f) : ∃ x ∈ l, test x = .error f := by
  induction l with
  | nil => cases h
  | cons x rest ih =>
    rw [takeFirst] at h
    rcases hx : test x with f' | b
    · rw [hx] at h
      cases h
      exact ⟨x, List.mem_cons_self, hx⟩
    · rw [hx] at h
      cases b with
      | true => cases h
      | false =>
        obtain ⟨y, hy, hf⟩ := ih (error_of_map_eq_error h)
        exact ⟨y, List.mem_cons_of_mem _ hy, hf⟩

theorem existsIn_error (h : existsIn test l = .error f) : ∃ x ∈ l, test x = .error f := by
  induction l with
  | nil => cases h
  | cons x rest ih =>
    rw [existsIn] at h
    rcases hx : test x with f' | b
    · rw [hx] at h
      cases h
      exact ⟨x, List.mem_cons_self, hx⟩
    · rw [hx] at h
      cases b with
      | true => cases h
      | false =>
        obtain ⟨y, hy, hf⟩ := ih h
        exact ⟨y, List.mem_cons_of_mem _ hy, hf⟩

end

/-! ## Extremes -/

/-- Faults of the work on a sentence that are no fault of the sentence or the entities, but of numbers
    and names that are beyond what can be handled. -/
inductive TaskFault.Extreme : TaskFault → Prop
  /-- An integer is to be compared, and no floating point number is near it. -/
  | large : TaskFault.Extreme (.test .numberTooLarge)
  /-- An integer of too many digits is to be compared with a text. -/
  | unwritten : TaskFault.Extreme (.test .numeralTooLong)
  /-- A clause has an integer of too many digits in it. -/
  | unread {f : Where.Fault} : f.reason = .numeralTooLong → Extreme (.clause f)
  /-- Metadata refer to an entity that is called by bytes. -/
  | bytes : TaskFault.Extreme .unwritableName

/-! ## Faults of tests -/

namespace Pools
variable {p : Pools} {s : Store} {d : Domain} {clause : Option Where.Clause} {f : Where.TestFault}

/-- The clause cannot be tested on some entity of a pool. -/
def TestFails (p : Pools) (s : Store) (clause : Option Where.Clause) (f : Where.TestFault) : Prop :=
  ∃ d, ∃ e ∈ p.get d, ∃ c ∈ clause, c.holds (some (s.property e)) = .error f

theorem admits_error {filter : Option Filter} {e : Entity} (h : s.admits filter clause e = .error f) :
    ∃ c ∈ clause, c.holds (some (s.property e)) = .error f := by
  unfold Store.admits at h
  split at h
  · split at h
    · exact ⟨_, rfl, h⟩
    · cases h
  · cases h

theorem take_error {filter : Option Filter} (h : p.take s d filter clause = .error f) : p.TestFails s clause f := by
  by_cases hnone : filter = none ∧ clause = none
  · obtain ⟨rfl, rfl⟩ := hnone
    rw [take_last] at h
    cases h
  · rw [take_first p s d hnone] at h
    obtain ⟨e, he, hf⟩ := takeFirst_error (error_of_map_eq_error h)
    exact ⟨d, e, he, admits_error hf⟩

theorem available_error {filters : List Filter} (h : p.available s d clause filters = .error f) :
    p.TestFails s clause f := by
  induction filters with
  | nil => cases h
  | cons filter rest ih =>
    rw [available] at h
    split at h
    · rename_i hexists
      cases h
      obtain ⟨e, he, hf⟩ := existsIn_error hexists
      exact ⟨d, e, he, admits_error hf⟩
    · exact ih (error_of_map_eq_error h)

end Pools

namespace Resolver
variable {σ : Type} [RandomSource σ] {store : Store} {r r' : Resolver σ} {f : TaskFault}

/-! ## One group -/

/-- What a group with some clauses can fail of, given the pools. -/
inductive FailsOf (store : Store) (p : Pools) (clauses : List Text) : TaskFault → Prop
  | unread {c : Text} {f : Where.Fault} : c ∈ clauses → Where.parse c = .error f → FailsOf store p clauses (.clause f)
  | untested {cs : List Where.Clause} {f : Where.TestFault} : clauses.mapM Where.parse = .ok cs →
      p.TestFails store (Where.conjunction cs) f → FailsOf store p clauses (.test f)
  | exhausted (d : Domain) (filter : Option Filter) (clause : Option Text) :
      FailsOf store p clauses (.exhausted d filter clause)

theorem joinedClause_error {clauses : List Text} (h : joinedClause clauses = .error f) (p : Pools) :
    FailsOf store p clauses f := by
  rw [joinedClause] at h
  split at h
  · cases h
  · rename_i hread
    cases h
    obtain ⟨c, hc, hf⟩ := exists_of_mapM_error hread
    exact .unread hc hf

theorem chooseFilter_error {wish : Wish} {clauses : List Text} {cs : List Where.Clause}
    (hcs : clauses.mapM Where.parse = .ok cs)
    (h : (chooseFilter store wish (Where.conjunction cs)).run r = (.error f, r')) : FailsOf store r.pools clauses f := by
  cases wish with
  | whole d => cases h
  | only d filter => cases h
  | drawn d filters =>
    rw [chooseFilter, run_bind_get] at h
    rcases ha : r.pools.available store d (Where.conjunction cs) filters with f' | _ | ⟨first, more⟩
    · rw [ha] at h
      cases h
      exact .untested hcs (Pools.available_error ha)
    · rw [ha] at h
      cases h
      exact .exhausted _ _ _
    · rw [ha] at h
      cases h

omit [RandomSource σ] in
theorem draw_fails {d : Domain} {filter : Option Filter} {clauses : List Text} {cs : List Where.Clause}
    (hcs : clauses.mapM Where.parse = .ok cs)
    (h : (draw store d filter (Where.conjunction cs)).run r = (.error f, r')) : FailsOf store r.pools clauses f := by
  rw [draw, run_bind_get] at h
  rcases ht : r.pools.take store d filter (Where.conjunction cs) with f' | _ | ⟨e, pools⟩
  · rw [ht] at h
    cases h
    exact .untested hcs (Pools.take_error ht)
  · rw [ht] at h
    cases h
    exact .exhausted _ _ _
  · rw [ht] at h
    cases h

theorem fulfil_fails {clauses : List Text} {d : Demand} (h : (fulfil store clauses d).run r = (.error f, r')) :
    FailsOf store r.pools clauses f := by
  cases d with
  | nothing => cases h
  | entity wish =>
    rcases run_bind_eq_error.mp h with hclause | ⟨clause, r₁, hclause, h⟩
    · rw [run_result] at hclause
      exact joinedClause_error (Prod.mk.inj hclause).1 _
    · rw [run_result] at hclause
      obtain ⟨hjoined, rfl⟩ := Prod.mk.inj hclause
      obtain ⟨cs, hcs, rfl⟩ := joinedClause_ok hjoined
      rcases run_bind_eq_error.mp h with hfilter | ⟨filter, r₂, hfilter, h⟩
      · exact chooseFilter_error hcs hfilter
      · rcases run_bind_eq_error.mp h with hdraw | ⟨e, r₃, -, h⟩
        · rw [← (chooseFilter_eq hfilter).1]
          exact draw_fails hcs hdraw
        · cases h

/-! ## All groups -/

section
variable {groups : List Group} {Inv : Bindings → Resolver σ → Prop}

/-- Binding fails at a group, in a state of which something holds. -/
def FailsAt (store : Store) (groups : List Group) (Inv : Bindings → Resolver σ → Prop) (f : TaskFault) : Prop :=
  ∃ g d bound clauses r r', (g, d) ∈ demandsOf groups ∧ g.clauses.mapM (substitute bound) = some clauses ∧ Inv bound r ∧
    (fulfil store clauses d).run r = (.error f, r')

variable (hk : Keeps store groups Inv)
include hk

theorem bindReady_error {ready : List Waiting} (hready : ∀ w ∈ ready, w ∈ readyOf groups) {bound : Bindings}
    (h : (bindReady store ready bound).run r = (.error f, r')) (hi : Inv bound r) : FailsAt store groups Inv f := by
  induction ready generalizing bound r with
  | nil => cases h
  | cons w rest ih =>
    obtain ⟨g, d⟩ := w
    have hmem := List.mem_filter.mp (hready _ List.mem_cons_self)
    have hnone : g.clauses.flatMap references = [] := by
      have := hmem.2
      rwa [List.isEmpty_iff, Group.references_eq] at this
    have hclauses : g.clauses.mapM (substitute bound) = some g.clauses := substituteAll_of_no_references hnone
    rcases run_bind_eq_error.mp h with h | ⟨shown, r₁, hshown, h⟩
    · exact ⟨g, d, bound, _, r, r', hmem.1, hclauses, hi, h⟩
    · exact ih (fun w hw => hready w (List.mem_cons_of_mem _ hw)) h (hk g d bound _ shown r r₁ hmem.1 hclauses hshown hi)

theorem bindWaiting_error {waiting : List Waiting} (hwaiting : ∀ w ∈ waiting, w ∈ demandsOf groups) {bound : Bindings}
    (h : (bindWaiting store waiting bound).run r = (.error f, r')) (hi : Inv bound r) : FailsAt store groups Inv f := by
  induction waiting generalizing bound r with
  | nil => cases h
  | cons w rest ih =>
    obtain ⟨g, d⟩ := w
    have hmem := hwaiting _ List.mem_cons_self
    have hrest : ∀ w ∈ rest, w ∈ demandsOf groups := fun w hw => hwaiting w (List.mem_cons_of_mem _ hw)
    rw [bindWaiting] at h
    rcases hclauses : g.clauses.mapM (substitute bound) with _ | clauses
    · rw [hclauses] at h
      rcases run_bind_eq_error.mp h with h | ⟨⟨bound', left⟩, r₁, -, h⟩
      · exact ih hrest h hi
      · cases h
    · rw [hclauses] at h
      rcases run_bind_eq_error.mp h with h | ⟨shown, r₁, hshown, h⟩
      · exact ⟨g, d, bound, clauses, r, r', hmem, hclauses, hi, h⟩
      · exact ih hrest h (hk g d bound clauses shown r r₁ hmem hclauses hshown hi)

theorem settle_error {most : Nat} {waiting : List Waiting} (hwaiting : ∀ w ∈ waiting, w ∈ demandsOf groups)
    {bound : Bindings} (h : (settle store most waiting bound).run r = (.error f, r')) (hi : Inv bound r) :
    FailsAt store groups Inv f := by
  induction most generalizing waiting bound r with
  | zero => cases h
  | succ most ih =>
    rw [settle] at h
    by_cases hw : waiting.isEmpty = true
    · rw [if_pos hw] at h
      cases h
    · rw [if_neg hw] at h
      rcases run_bind_eq_error.mp h with h | ⟨⟨bound₁, left⟩, r₁, hround, h⟩
      · exact bindWaiting_error hk hwaiting h hi
      · dsimp only at h
        by_cases hl : left.length = waiting.length
        · rw [if_pos hl] at h
          cases h
        · rw [if_neg hl] at h
          obtain ⟨hinv, hleft⟩ := bindWaiting_invariant hk hwaiting hround hi
          exact ih (fun w hw => hwaiting w (hleft w hw)) h hinv

theorem bindAll_error {occurrences : List Occurrence} (h : (bindAll store groups occurrences).run r = (.error f, r'))
    (hi : Inv [] r) : FailsAt store groups Inv f := by
  rw [bindAll_eq] at h
  rcases run_bind_eq_error.mp h with h | ⟨bound₀, r₀, hready, h⟩
  · exact bindReady_error hk (fun w hw => hw) h hi
  · rcases run_bind_eq_error.mp h with h | ⟨bound₁, r₁, -, h⟩
    · refine settle_error hk (fun w hw => (List.mem_filter.mp hw).1) h ?_
      exact bindReady_invariant hk (fun w hw => hw) hready hi
    · cases h

end

/-! ## A sentence -/

/-- Metadata refer to something that is called by bytes. -/
theorem exists_of_namesBytes {bound : Bindings} {w : Occurrence} (h : namesBytes bound w = true) :
    ∃ k shown, (k, shown) ∈ bound ∧ shown.name.isText = false := by
  rw [namesBytes, Bool.and_eq_true, List.any_eq_true] at h
  obtain ⟨-, k, -, hk⟩ := h
  rcases hlookup : bound.lookup k with _ | shown
  · rw [hlookup] at hk
    cases hk
  · rw [hlookup, Option.any_some, Bool.not_eq_true'] at hk
    exact ⟨k, shown, mem_of_lookup hlookup, hk⟩

omit [RandomSource σ] in
theorem scanned_error {sentence : Text} (h : (scanned sentence).run r = (.error f, r')) : ∃ f', f = .marker f' := by
  rw [scanned_eq] at h
  rcases hscan : ((scan sentence).run r.next).1 with f' | found
  · rw [hscan] at h
    cases h
    exact ⟨f', rfl⟩
  · rw [hscan] at h
    cases h

theorem task_error {sentence : Text} (h : (task store sentence).run r = (.error f, r')) :
    (∃ f', f = .marker f') ∨ ∃ found r₁, (scanned sentence).run r = (.ok found, r₁) ∧
      ((bindAll store (Group.ofOccurrences found.all) found.all).run r₁ = (.error f, r') ∨
        ∃ bound, (bindAll store (Group.ofOccurrences found.all) found.all).run r₁ = (.ok bound, r') ∧
          f = .unwritableName ∧ ∃ w ∈ found.direct, namesBytes bound w = true) := by
  rcases run_bind_eq_error.mp h with h | ⟨found, r₁, hscan, h⟩
  · exact Or.inl (scanned_error h)
  refine Or.inr ⟨found, r₁, hscan, ?_⟩
  rcases run_bind_eq_error.mp h with h | ⟨bound, r₂, hbound, h⟩
  · exact Or.inl h
  · by_cases hbytes : found.direct.any (namesBytes bound) = true
    · rw [if_pos hbytes] at h
      cases h
      exact Or.inr ⟨bound, hbound, rfl, List.any_eq_true.mp hbytes⟩
    · rw [if_neg hbytes] at h
      cases h

theorem FailsOf.extreme {p : Pools} {clauses : List Text} (h : FailsOf store p clauses f) (hf : f.isOrdinary = false) :
    f.Extreme := by
  cases h with
  | @unread c f hc hread =>
    refine .unread ?_
    simpa [TaskFault.isOrdinary] using hf
  | @untested cs f hcs hfails =>
    obtain ⟨d, e, -, c, hc, hholds⟩ := hfails
    have hall : ∀ x ∈ cs, x.root.Consists fun condition => condition.literal.IsProper := by
      intro x hx
      obtain ⟨t, -, ht⟩ := exists_of_mem_mapM hcs hx
      exact Where.parse_consists ht
    obtain ⟨condition, hproper, hcondition⟩ := Where.Expr.holds_error (Where.conjunction_consists hall hc) hholds
    rcases Where.Condition.holds_error hproper hcondition with h | h | ⟨n, -, h⟩
    · rw [Property.asText_error h]
      exact .unwritten
    · rw [Property.asNumber_error h]
      exact .large
    · cases n with
      | integer n =>
        rw [Where.floating_error h]
        exact .large
      | real x => cases h
  | exhausted d filter clause => cases hf

end Resolver

/-! ## Tame entities -/

/-- The values that one may compare an entity by, its name left out. -/
def Entity.values : Entity → List Value
  | .question _ q => q.question :: q.answer :: q.properties.map Prod.snd
  | e => e.properties.map Prod.snd

/-- Nothing about an entity is extreme: it is called by a text of short numerals, and its values
    can be written and compared. -/
structure Entity.IsTame (e : Entity) : Prop where
  text : e.name.isText = true
  short : ShortNumerals false e.name.display
  values : ∀ v ∈ e.values, v.IsMeasurable

def Store.IsTame (s : Store) : Prop := ∀ d, ∀ e ∈ s.entitiesOfDomain d, e.IsTame

theorem Name.isMeasurable_value (n : Name) : n.value.IsMeasurable := by
  cases n with
  | text t => exact ⟨.scalar rfl, fun n h => by cases h⟩
  | bytes b => exact ⟨.scalar rfl, fun n h => by cases h⟩

theorem Properties.mem_of_get? {ps : Properties} {name : Text} {v : Value} (h : ps.get? name = some v) :
    v ∈ ps.map Prod.snd := by
  induction ps with
  | nil => cases h
  | cons entry ps ih =>
    rw [get?] at h
    split at h
    · cases h
      exact List.mem_cons_self
    · exact List.mem_cons_of_mem _ (ih h)

theorem Entity.properties_subset (e : Entity) : e.properties.map Prod.snd ⊆ e.values := by
  cases e with
  | question place q => exact fun v hv => List.mem_cons_of_mem _ (List.mem_cons_of_mem _ hv)
  | room _ _ | location _ _ | category _ _ | object _ _ | person _ _ | gesture _ _ => exact fun v hv => hv

theorem Entity.IsTame.field {e : Entity} (he : e.IsTame) {name : Text} {p : Property} (h : e.field? name = some p) :
    p.IsMeasurable := by
  have hname (n : Name) := Property.isMeasurable_value n.isMeasurable_value
  have hbool (b : Bool) : (Property.value (.bool b)).IsMeasurable :=
    Property.isMeasurable_value ⟨.scalar rfl, fun n h => by cases h⟩
  cases e with
  | room place x =>
    rw [field?] at h
    split_ifs at h
    cases h
    exact hname _
  | location place x =>
    rw [field?] at h
    split_ifs at h
    · cases h
      exact hname _
    · cases h
      exact hbool _
    · cases h
      exact hbool _
  | category place x =>
    rw [field?] at h
    split_ifs at h
    cases h
    exact hname _
  | object place x =>
    rw [field?] at h
    split_ifs at h
    · cases h
      exact hname _
    · cases h
      exact ⟨⟨_, rfl⟩, _, rfl⟩
    · cases h
      exact Property.isMeasurable_tier _
  | person place x =>
    rw [field?] at h
    split_ifs at h
    · cases h
      exact hname _
    · cases h
      exact ⟨⟨_, rfl⟩, _, rfl⟩
  | gesture place x =>
    rw [field?] at h
    split_ifs at h
    · cases h
      exact hname _
    · cases h
      exact Property.isMeasurable_tier _
  | question place x =>
    rw [field?] at h
    split_ifs at h
    · cases h
      exact Property.isMeasurable_value (he.values _ List.mem_cons_self)
    · cases h
      exact Property.isMeasurable_value (he.values _ (List.mem_cons_of_mem _ List.mem_cons_self))
    · cases h
      exact Property.isMeasurable_tier _

/-- Whatever clauses find of a tame entity can be compared. -/
theorem Entity.IsTame.property {e : Entity} (he : e.IsTame) (s : Store) (name : Text) :
    (s.property e name).IsMeasurable := by
  rw [Store.property]
  split
  · exact Property.isMeasurable_value (Name.isMeasurable_value _)
  · rw [Entity.property]
    split
    · exact Property.isMeasurable_value ⟨.scalar rfl, fun n h => by cases h⟩
    · split
      · rename_i hfield
        exact he.field hfield
      · split
        · rename_i hget
          exact Property.isMeasurable_value (he.values _ (e.properties_subset (Properties.mem_of_get? hget)))
        · exact ⟨⟨_, rfl⟩, _, rfl⟩

namespace Resolver
variable {σ : Type} [RandomSource σ] {store : Store} {r r' : Resolver σ} {f : TaskFault}

/-! ## Tame work -/

/-- A clause of short numerals remains one when short names are put into it. -/
theorem substitute_short {bound : Bindings} (hbound : ∀ k shown, (k, shown) ∈ bound → ShortNumerals false shown.name.display)
    {t t' : Text} (ht : ShortNumerals false t) (h : substitute bound t = some t') : ShortNumerals false t' := by
  rw [substitute_eq] at h
  generalize references t = keycodes at h
  induction keycodes generalizing t with
  | nil =>
    cases h
    exact ht
  | cons k keycodes ih =>
    rw [List.foldlM_cons] at h
    obtain ⟨u, hu, h⟩ := Option.bind_eq_some_iff.mp h
    obtain ⟨shown, hk, rfl⟩ := Option.map_eq_some_iff.mp hu
    have hname := hbound k shown (mem_of_lookup hk)
    exact ih (ShortNumerals.replaceAll (fenced_reference k) (fenced_quote _) (short_quote hname) ht) h

theorem short_of_substituteAll {bound : Bindings}
    (hbound : ∀ k shown, (k, shown) ∈ bound → ShortNumerals false shown.name.display) {clauses clauses' : List Text}
    (hclauses : ∀ c ∈ clauses, ShortNumerals false c) (h : clauses.mapM (substitute bound) = some clauses') :
    ∀ c ∈ clauses', ShortNumerals false c := by
  induction clauses generalizing clauses' with
  | nil =>
    cases h
    intro c hc
    cases hc
  | cons c clauses ih =>
    obtain ⟨hc, hclauses⟩ := List.forall_mem_cons.mp hclauses
    rw [List.mapM_cons] at h
    obtain ⟨c', hc', h⟩ := Option.bind_eq_some_iff.mp h
    obtain ⟨rest, hrest, h⟩ := Option.bind_eq_some_iff.mp h
    cases h
    exact List.forall_mem_cons.mpr ⟨substitute_short hbound hc hc', ih hclauses hrest⟩

/-- Tame entities and clauses of short numerals give no fault but ordinary ones. -/
theorem FailsOf.ordinary {p : Pools} (hp : ∀ d, ∀ e ∈ p.get d, e.IsTame) {clauses : List Text}
    (hclauses : ∀ c ∈ clauses, ShortNumerals false c) (h : FailsOf store p clauses f) : f.isOrdinary = true := by
  cases h with
  | @unread c f hc hread =>
    have hsyntactic := (Where.parse_short (hclauses c hc)).1 f hread
    exact bne_iff_ne.mpr hsyntactic
  | @untested cs f hcs hfails =>
    obtain ⟨d, e, he, c, hc, hholds⟩ := hfails
    have hall : ∀ x ∈ cs, x.root.Consists fun condition =>
        condition.literal.IsProper ∧ Where.TokenContent.IsSafe (.literal condition.literal) := by
      intro x hx
      obtain ⟨t, ht, hparse⟩ := exists_of_mem_mapM hcs hx
      exact (Where.parse_short (hclauses t ht)).2 x hparse
    obtain ⟨condition, ⟨hproper, hsafe⟩, hcondition⟩ :=
      Where.Expr.holds_error (Where.conjunction_consists hall hc) hholds
    obtain ⟨⟨t, ht⟩, x, hx⟩ := (hp d e he).property store condition.property
    rcases Where.Condition.holds_error hproper hcondition with h | h | ⟨n, hn, h⟩
    · rw [ht] at h
      cases h
    · rw [hx] at h
      cases h
    · cases n with
      | integer n =>
        obtain ⟨y, hy⟩ := Where.floating_ok (hsafe n (by rw [hn]))
        rw [Where.literalNumber, hy] at h
        cases h
      | real x => cases h
  | exhausted d filter clause => rfl

omit [RandomSource σ] in
theorem scanned_short {sentence : Text} (hsentence : ShortNumerals false sentence) (hnext : 0 ≤ r.next) {found : Found}
    (h : (scanned sentence).run r = (.ok found, r')) : ∀ w ∈ found.all, ∀ c ∈ w.clause, ShortNumerals false c := by
  obtain ⟨next, hscan, -⟩ := scanned_eq_ok_iff.mp h
  exact scan_short hsentence hnext hscan

omit [RandomSource σ] in
/-- What is bound has a tame name. -/
theorem tame_of_allMet {base : Pools} (hbase : ∀ d, ∀ e ∈ base.get d, e.IsTame) {groups : List Group} {bound : Bindings}
    (h : AllMet store base groups bound r) : ∀ k shown, (k, shown) ∈ bound →
      shown.name.isText = true ∧ ShortNumerals false shown.name.display := by
  intro k shown hshown
  obtain ⟨g, d, -, -, hmet⟩ := h.2 k shown hshown
  cases d with
  | nothing =>
    cases hmet
    exact ⟨rfl, trivial⟩
  | entity wish =>
    obtain ⟨e, filter, rfl, he, -⟩ := hmet
    exact ⟨(hbase _ e he).text, (hbase _ e he).short⟩

/-- Tame entities and a sentence of short numerals: if no task comes of it, it is the sentence or
    the number of entities that is to blame. -/
theorem task_ordinary {sentence : Text} (hsentence : ShortNumerals false sentence)
    (hpools : ∀ d, ∀ e ∈ r.pools.get d, e.IsTame) (hnext : 0 ≤ r.next)
    (h : (task store sentence).run r = (.error f, r')) : f.isOrdinary = true := by
  rcases task_error h with ⟨f', rfl⟩ | ⟨found, r₁, hscan, h⟩
  · rfl
  have hinit : AllMet store r.pools (Group.ofOccurrences found.all) [] r₁ := by
    refine ⟨fun d e he => ?_, fun k x hx => by cases hx⟩
    rwa [scanned_pools hscan] at he
  have hkeeps : Keeps store _ (AllMet (σ := σ) store r.pools (Group.ofOccurrences found.all)) := allMet_keeps _ _
  rcases h with h | ⟨bound, hbound, rfl, w, -, hw⟩
  · obtain ⟨g, d, bound, clauses, r₂, r₃, hg, hclauses, hinv, hfails⟩ := bindAll_error hkeeps h hinit
    have htame := tame_of_allMet hpools hinv
    refine (fulfil_fails hfails).ordinary (fun d e he => hpools d e (hinv.1 d e he)) ?_
    refine short_of_substituteAll (fun k shown hk => (htame k shown hk).2) (fun c hc => ?_) hclauses
    obtain ⟨-, w, hw, hwc⟩ := Group.mem_clauses.mp hc
    exact scanned_short hsentence hnext hscan w ((Group.grouped_ofOccurrences found.all).sound g (mem_demandsOf.mp hg).1 w hw) c hwc
  · obtain ⟨-, -, named, -, -, hinv, rfl⟩ := bindAll_invariant hkeeps (fun _ _ _ hi => hi) hbound hinit
    obtain ⟨k, shown, hmem, hbytes⟩ := exists_of_namesBytes hw
    rcases List.mem_append.mp hmem with hmem | hmem
    · rw [(tame_of_allMet hpools hinv k shown hmem).1] at hbytes
      cases hbytes
    · obtain ⟨g, -, he⟩ := List.mem_map.mp hmem
      cases he
      cases hbytes

/-- If a task fails of something that is no fault of the sentence, it is one of four extremes. -/
theorem task_extreme {sentence : Text} (h : (task store sentence).run r = (.error f, r')) (hf : f.isOrdinary = false) :
    f.Extreme := by
  rcases task_error h with ⟨f', rfl⟩ | ⟨found, r₁, hscan, h⟩
  · cases hf
  rcases h with h | ⟨bound, hbound, rfl, w, -, hw⟩
  · have hkeeps : Keeps (σ := σ) store (Group.ofOccurrences found.all) fun _ _ => True :=
      fun _ _ _ _ _ _ _ _ _ _ _ => trivial
    obtain ⟨g, d, bound, clauses, r₂, r₃, -, -, -, hfails⟩ := bindAll_error hkeeps h trivial
    exact (fulfil_fails hfails).extreme hf
  · exact .bytes

end Resolver

end Errand
