/-
  Errand.Proofs.Task.Binding — runs that bind groups.

  What is bound stays bound (`substitute_append`), so a clause that could be substituted
  once gives the same ever after. Each group is bound in a state in which all of its
  clauses can be substituted. So an invariant that one such step keeps holds after the
  whole run (`bindAll_invariant`).
-/

import Errand.Proofs.Task.Taking
import Errand.Proofs.Wildcard.References

namespace Errand

/-! ## Look-ups -/

section
variable {α β : Type} [BEq α] [LawfulBEq α] {l : List (α × β)} {k : α}

theorem mem_of_lookup {b : β} (h : l.lookup k = some b) : (k, b) ∈ l := by
  obtain ⟨before, behind, rfl, -⟩ := List.lookup_eq_some_iff.mp h
  exact List.mem_append_right _ List.mem_cons_self

theorem isSome_lookup_iff : (l.lookup k).isSome = true ↔ k ∈ l.map Prod.fst := by
  rw [List.lookup_isSome_iff, List.mem_map]
  constructor
  · rintro ⟨entry, he, hk⟩
    exact ⟨entry, he, (beq_iff_eq.mp hk).symm⟩
  · rintro ⟨entry, he, rfl⟩
    exact ⟨entry, he, beq_self_eq_true _⟩

end

namespace Resolver

/-! ## Substitution -/

/-- A text with the quoted name of what a keycode is bound to in the place of references
    to it. -/
def withName (bound : Bindings) (t keycode : Text) : Option Text :=
  (bound.lookup keycode).map fun shown =>
    Text.replaceAll (reference keycode) (Where.quote shown.name.display) t

section
variable {bound more : Bindings}

theorem substitute_eq (clause : Text) :
    substitute bound clause = (references clause).foldlM (withName bound) clause := rfl

theorem lookup_append_of_some {keycode : Text} {shown : Shown} (h : bound.lookup keycode = some shown) :
    (bound ++ more).lookup keycode = some shown := by
  rw [List.lookup_append, h]
  rfl

theorem withNames_eq_none_iff {keycodes : List Text} {t : Text} :
    keycodes.foldlM (withName bound) t = none ↔ ∃ k ∈ keycodes, bound.lookup k = none := by
  induction keycodes generalizing t with
  | nil => exact ⟨fun h => (by cases h), fun ⟨k, hk, _⟩ => (by cases hk)⟩
  | cons k keycodes ih =>
    rw [List.foldlM_cons]
    rcases hk : bound.lookup k with _ | shown
    · have hnone : withName bound t k = none := by rw [withName, hk]; rfl
      rw [hnone]
      exact ⟨fun _ => ⟨k, List.mem_cons_self, hk⟩, fun _ => rfl⟩
    · obtain ⟨u, hu⟩ : ∃ u, withName bound t k = some u := ⟨_, by rw [withName, hk]; rfl⟩
      rw [hu]
      refine Iff.trans ih ⟨fun ⟨j, hj, hn⟩ => ⟨j, List.mem_cons_of_mem _ hj, hn⟩, ?_⟩
      rintro ⟨j, hj, hn⟩
      rcases List.mem_cons.mp hj with rfl | hj
      · rw [hk] at hn
        cases hn
      · exact ⟨j, hj, hn⟩

theorem withNames_append {keycodes : List Text} {t t' : Text}
    (h : keycodes.foldlM (withName bound) t = some t') :
    keycodes.foldlM (withName (bound ++ more)) t = some t' := by
  induction keycodes generalizing t with
  | nil => exact h
  | cons k keycodes ih =>
    rw [List.foldlM_cons] at h ⊢
    obtain ⟨u, hu, h⟩ := Option.bind_eq_some_iff.mp h
    obtain ⟨shown, hk, he⟩ := Option.map_eq_some_iff.mp hu
    have hsame : withName (bound ++ more) t k = some u := by
      rw [withName, lookup_append_of_some hk, ← he]
      rfl
    rw [hsame]
    exact ih h

theorem substitute_eq_none_iff {clause : Text} :
    substitute bound clause = none ↔ ∃ k ∈ references clause, bound.lookup k = none :=
  withNames_eq_none_iff

theorem substitute_of_no_references {clause : Text} (h : references clause = []) :
    substitute bound clause = some clause := by
  rw [substitute_eq, h]
  rfl

/-- What is bound later changes nothing in a clause that could be substituted. -/
theorem substitute_append {clause clause' : Text} (h : substitute bound clause = some clause') :
    substitute (bound ++ more) clause = some clause' :=
  withNames_append h

/-- The clauses of a group can be substituted as soon as all of its references are bound. -/
theorem substituteAll_eq_none_iff {clauses : List Text} :
    clauses.mapM (substitute bound) = none ↔ ∃ k ∈ clauses.flatMap references, bound.lookup k = none := by
  induction clauses with
  | nil => exact ⟨fun h => (by cases h), fun ⟨k, hk, _⟩ => (by cases hk)⟩
  | cons c clauses ih =>
    rw [List.mapM_cons, List.flatMap_cons]
    rcases hc : substitute bound c with _ | c'
    · obtain ⟨k, hk, hn⟩ := substitute_eq_none_iff.mp hc
      exact ⟨fun _ => ⟨k, List.mem_append_left _ hk, hn⟩, fun _ => rfl⟩
    · rcases hrest : clauses.mapM (substitute bound) with _ | rest
      · obtain ⟨k, hk, hn⟩ := ih.mp hrest
        exact ⟨fun _ => ⟨k, List.mem_append_right _ hk, hn⟩, fun _ => rfl⟩
      · refine ⟨fun h => (by cases h), fun ⟨k, hk, hn⟩ => ?_⟩
        rcases List.mem_append.mp hk with hk | hk
        · rw [substitute_eq_none_iff.mpr ⟨k, hk, hn⟩] at hc
          cases hc
        · rw [ih.mpr ⟨k, hk, hn⟩] at hrest
          cases hrest

theorem substituteAll_of_no_references {clauses : List Text} (h : clauses.flatMap references = []) :
    clauses.mapM (substitute bound) = some clauses := by
  induction clauses with
  | nil => rfl
  | cons c clauses ih =>
    rw [List.flatMap_cons, List.append_eq_nil_iff] at h
    rw [List.mapM_cons, substitute_of_no_references h.1, ih h.2]
    rfl

theorem exists_of_substituteAll {clauses clauses' : List Text} (h : clauses.mapM (substitute bound) = some clauses')
    {c : Text} (hc : c ∈ clauses) : ∃ c' ∈ clauses', substitute bound c = some c' := by
  induction clauses generalizing clauses' with
  | nil => cases hc
  | cons first clauses ih =>
    rw [List.mapM_cons] at h
    obtain ⟨first', hfirst, h⟩ := Option.bind_eq_some_iff.mp h
    obtain ⟨rest, hrest, h⟩ := Option.bind_eq_some_iff.mp h
    cases h
    rcases List.mem_cons.mp hc with rfl | hc
    · exact ⟨first', List.mem_cons_self, hfirst⟩
    · obtain ⟨c', hc', he⟩ := ih hrest hc
      exact ⟨c', List.mem_cons_of_mem _ hc', he⟩

end

/-! ## Steps of a run -/

section
variable {σ : Type} [RandomSource σ] {store : Store} {r r' : Resolver σ}

omit [RandomSource σ] in
theorem scanned_eq (sentence : Text) (r : Resolver σ) : (scanned sentence).run r =
    (((scan sentence).run r.next).1.mapError .marker, { r with next := ((scan sentence).run r.next).2 }) := by
  rw [scanned, run_bind_get]
  rcases (scan sentence).run r.next with ⟨f | found, next⟩
  · rfl
  · rfl

omit [RandomSource σ] in
theorem scanned_eq_ok_iff {sentence : Text} {found : Found} : (scanned sentence).run r = (.ok found, r') ↔
    ∃ next, (scan sentence).run r.next = (.ok found, next) ∧ r' = { r with next } := by
  rw [scanned_eq]
  rcases (scan sentence).run r.next with ⟨f | found', next⟩
  · constructor
    · intro h
      cases h
    · rintro ⟨next', h, -⟩
      cases h
  · constructor
    · intro h
      cases h
      exact ⟨next, rfl, rfl⟩
    · rintro ⟨next', h, rfl⟩
      cases h
      rfl

theorem bindReady_cons {g : Group} {d : Demand} {rest : List Waiting} {bound bound' : Bindings}
    (h : (bindReady store ((g, d) :: rest) bound).run r = (.ok bound', r')) :
    ∃ shown r₁, (fulfil store g.clauses d).run r = (.ok shown, r₁) ∧
      (bindReady store rest (bound ++ [(g.keycode, shown)])).run r₁ = (.ok bound', r') :=
  run_bind_eq_ok.mp h

/-- A waiting group is passed over, or bound if its clauses can be substituted. -/
theorem bindWaiting_cons {g : Group} {d : Demand} {rest : List Waiting} {bound bound' : Bindings}
    {left : List Waiting} (h : (bindWaiting store ((g, d) :: rest) bound).run r = (.ok (bound', left), r')) :
    (g.clauses.mapM (substitute bound) = none ∧ ∃ more, left = (g, d) :: more ∧
      (bindWaiting store rest bound).run r = (.ok (bound', more), r')) ∨
    ∃ clauses shown r₁, g.clauses.mapM (substitute bound) = some clauses ∧
      (fulfil store clauses d).run r = (.ok shown, r₁) ∧
      (bindWaiting store rest (bound ++ [(g.keycode, shown)])).run r₁ = (.ok (bound', left), r') := by
  rw [bindWaiting] at h
  rcases hc : g.clauses.mapM (substitute bound) with _ | clauses
  · rw [hc] at h
    obtain ⟨⟨bound₁, more⟩, r₁, hrest, h⟩ := run_bind_eq_ok.mp h
    obtain ⟨e, rfl⟩ := run_pure_eq_ok.mp h
    cases e
    exact Or.inl ⟨rfl, more, rfl, hrest⟩
  · rw [hc] at h
    obtain ⟨shown, r₁, hshown, h⟩ := run_bind_eq_ok.mp h
    exact Or.inr ⟨clauses, shown, r₁, rfl, hshown, h⟩

/-- A round comes to an end, with nothing bound, or is followed by the next one. -/
theorem settle_succ {most : Nat} {waiting : List Waiting} {bound bound' : Bindings}
    (h : (settle store (most + 1) waiting bound).run r = (.ok bound', r')) :
    (waiting = [] ∧ bound' = bound ∧ r' = r) ∨ ∃ bound₁ left r₁,
      (bindWaiting store waiting bound).run r = (.ok (bound₁, left), r₁) ∧
      (left.length = waiting.length ∧ bound' = bound₁ ∧ (∃ log, r' = { r₁ with log }) ∨
        left.length ≠ waiting.length ∧ (settle store most left bound₁).run r₁ = (.ok bound', r')) := by
  rw [settle] at h
  by_cases hw : waiting.isEmpty = true
  · rw [if_pos hw] at h
    obtain ⟨rfl, rfl⟩ := run_pure_eq_ok.mp h
    exact Or.inl ⟨List.isEmpty_iff.mp hw, rfl, rfl⟩
  · rw [if_neg hw] at h
    obtain ⟨⟨bound₁, left⟩, r₁, hround, h⟩ := run_bind_eq_ok.mp h
    refine Or.inr ⟨bound₁, left, r₁, hround, ?_⟩
    dsimp only at h
    by_cases hl : left.length = waiting.length
    · rw [if_pos hl] at h
      obtain ⟨u, r₂, hwarn, h⟩ := run_bind_eq_ok.mp h
      obtain ⟨rfl, rfl⟩ := run_pure_eq_ok.mp h
      cases hwarn
      exact Or.inl ⟨hl, rfl, _, rfl⟩
    · rw [if_neg hl] at h
      exact Or.inr ⟨hl, h⟩

/-- The groups that ask for something, each with what it asks for. -/
def demandsOf (groups : List Group) : List Waiting := groups.filterMap fun g => (demand? g).map (g, ·)

/-- Those of them that refer to nothing. -/
def readyOf (groups : List Group) : List Waiting :=
  (demandsOf groups).filter fun (g, _) => g.references.isEmpty

/-- Those of them that refer to something. -/
def waitingOf (groups : List Group) : List Waiting :=
  (demandsOf groups).filter fun (g, _) => !g.references.isEmpty

/-- What pronouns are bound to in the end. -/
def pronounsOf (bound : Bindings) (groups : List Group) (occurrences : List Occurrence) : Bindings :=
  (groups.filter isPronoun).map fun g => (g.keycode, pronounOf bound occurrences g)

theorem bindAll_eq (groups : List Group) (occurrences : List Occurrence) :
    (bindAll store groups occurrences : Resolving σ Bindings) = do
      let bound ← bindReady store (readyOf groups) []
      let bound ← settle store (waitingOf groups).length (waitingOf groups) bound
      return bound ++ pronounsOf bound groups occurrences := by
  have hready : readyOf groups = (demandsOf groups).filter ((!·) ∘ fun (g, _) => !g.references.isEmpty) := by
    simp [readyOf, Function.comp_def]
  rw [bindAll, List.partition_eq_filter_filter, hready]
  rfl

theorem bindAll_ok {groups : List Group} {occurrences : List Occurrence} {bound : Bindings}
    (h : (bindAll store groups occurrences).run r = (.ok bound, r')) :
    ∃ bound₀ r₀ bound₁, (bindReady store (readyOf groups) []).run r = (.ok bound₀, r₀) ∧
      (settle store (waitingOf groups).length (waitingOf groups) bound₀).run r₀ = (.ok bound₁, r') ∧
      bound = bound₁ ++ pronounsOf bound₁ groups occurrences := by
  rw [bindAll_eq] at h
  obtain ⟨bound₀, r₀, hready, h⟩ := run_bind_eq_ok.mp h
  obtain ⟨bound₁, r₁, hsettled, h⟩ := run_bind_eq_ok.mp h
  obtain ⟨rfl, rfl⟩ := run_pure_eq_ok.mp h
  exact ⟨bound₀, r₀, bound₁, hready, hsettled, rfl⟩

theorem mem_demandsOf {groups : List Group} {g : Group} {d : Demand} :
    (g, d) ∈ demandsOf groups ↔ g ∈ groups ∧ demand? g = some d := by
  rw [demandsOf, List.mem_filterMap]
  constructor
  · rintro ⟨g', hg', he⟩
    obtain ⟨d', hd', he⟩ := Option.map_eq_some_iff.mp he
    cases he
    exact ⟨hg', hd'⟩
  · rintro ⟨hg, hd⟩
    exact ⟨g, hg, by rw [hd]; rfl⟩

theorem mem_demandsOf_iff {groups : List Group} {w : Waiting} :
    w ∈ demandsOf groups ↔ w ∈ readyOf groups ∨ w ∈ waitingOf groups := by
  obtain ⟨g, d⟩ := w
  rw [readyOf, waitingOf, List.mem_filter, List.mem_filter, ← and_or_left]
  refine (and_iff_left ?_).symm
  show g.references.isEmpty = true ∨ (!g.references.isEmpty) = true
  cases g.references.isEmpty
  · exact Or.inr rfl
  · exact Or.inl rfl

/-! ## Invariants -/

section
variable {groups : List Group} {Inv : Bindings → Resolver σ → Prop}

/-- Binding one group keeps an invariant. -/
def Keeps (store : Store) (groups : List Group) (Inv : Bindings → Resolver σ → Prop) : Prop :=
  ∀ g d bound clauses shown r r', (g, d) ∈ demandsOf groups → g.clauses.mapM (substitute bound) = some clauses →
    (fulfil store clauses d).run r = (.ok shown, r') → Inv bound r → Inv (bound ++ [(g.keycode, shown)]) r'

variable (hk : Keeps store groups Inv)
include hk

theorem bindReady_invariant {ready : List Waiting} (hready : ∀ w ∈ ready, w ∈ readyOf groups)
    {bound bound' : Bindings} (h : (bindReady store ready bound).run r = (.ok bound', r')) (hi : Inv bound r) :
    Inv bound' r' := by
  induction ready generalizing bound r with
  | nil =>
    obtain ⟨rfl, rfl⟩ := run_pure_eq_ok.mp h
    exact hi
  | cons w rest ih =>
    obtain ⟨g, d⟩ := w
    obtain ⟨shown, r₁, hshown, hrest⟩ := bindReady_cons h
    have hmem := hready _ List.mem_cons_self
    have hnone : g.clauses.flatMap references = [] := by
      have := (List.mem_filter.mp hmem).2
      rwa [List.isEmpty_iff, Group.references_eq] at this
    refine ih (fun w hw => hready w (List.mem_cons_of_mem _ hw)) hrest ?_
    exact hk g d bound _ shown r r₁ (List.mem_filter.mp hmem).1 (substituteAll_of_no_references hnone) hshown hi

theorem bindWaiting_invariant {waiting : List Waiting} (hwaiting : ∀ w ∈ waiting, w ∈ demandsOf groups)
    {bound bound' : Bindings} {left : List Waiting}
    (h : (bindWaiting store waiting bound).run r = (.ok (bound', left), r')) (hi : Inv bound r) :
    Inv bound' r' ∧ ∀ w ∈ left, w ∈ waiting := by
  induction waiting generalizing bound r left with
  | nil =>
    obtain ⟨e, rfl⟩ := run_pure_eq_ok.mp h
    cases e
    exact ⟨hi, fun w hw => hw⟩
  | cons w rest ih =>
    obtain ⟨g, d⟩ := w
    have hrest : ∀ w ∈ rest, w ∈ demandsOf groups := fun w hw => hwaiting w (List.mem_cons_of_mem _ hw)
    rcases bindWaiting_cons h with ⟨-, more, rfl, hmore⟩ | ⟨clauses, shown, r₁, hc, hshown, hmore⟩
    · obtain ⟨hinv, hleft⟩ := ih hrest hmore hi
      refine ⟨hinv, fun w hw => ?_⟩
      rcases List.mem_cons.mp hw with rfl | hw
      · exact List.mem_cons_self
      · exact List.mem_cons_of_mem _ (hleft w hw)
    · obtain ⟨hinv, hleft⟩ := ih hrest hmore
        (hk g d bound clauses shown r r₁ (hwaiting _ List.mem_cons_self) hc hshown hi)
      exact ⟨hinv, fun w hw => List.mem_cons_of_mem _ (hleft w hw)⟩

variable (hlog : ∀ bound r log, Inv bound r → Inv bound { r with log })
include hlog

theorem settle_invariant {most : Nat} {waiting : List Waiting} (hwaiting : ∀ w ∈ waiting, w ∈ demandsOf groups)
    {bound bound' : Bindings} (h : (settle store most waiting bound).run r = (.ok bound', r')) (hi : Inv bound r) :
    Inv bound' r' := by
  induction most generalizing waiting bound r with
  | zero =>
    obtain ⟨rfl, rfl⟩ := run_pure_eq_ok.mp h
    exact hi
  | succ most ih =>
    rcases settle_succ h with ⟨-, rfl, rfl⟩ | ⟨bound₁, left, r₁, hround, hend⟩
    · exact hi
    · obtain ⟨hinv, hleft⟩ := bindWaiting_invariant hk hwaiting hround hi
      rcases hend with ⟨-, rfl, log, rfl⟩ | ⟨-, hnext⟩
      · exact hlog _ _ _ hinv
      · exact ih (fun w hw => hwaiting w (hleft w hw)) hnext hinv

/-- What binding one group keeps holds of all that is bound, pronouns left out. -/
theorem bindAll_invariant {occurrences : List Occurrence} {bound : Bindings}
    (h : (bindAll store groups occurrences).run r = (.ok bound, r')) (hi : Inv [] r) :
    ∃ bound₀ r₀ named, (bindReady store (readyOf groups) []).run r = (.ok bound₀, r₀) ∧
      (settle store (waitingOf groups).length (waitingOf groups) bound₀).run r₀ = (.ok named, r') ∧
      Inv named r' ∧ bound = named ++ pronounsOf named groups occurrences := by
  obtain ⟨bound₀, r₀, named, hready, hsettled, rfl⟩ := bindAll_ok h
  have hinv := bindReady_invariant hk (fun w hw => hw) hready hi
  refine ⟨bound₀, r₀, named, hready, hsettled, settle_invariant hk hlog (fun w hw => ?_) hsettled hinv, rfl⟩
  exact (List.mem_filter.mp hw).1

end

end

end Resolver

end Errand
