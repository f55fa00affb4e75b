/-
  Errand.Proofs.Wildcard.Identity — keycodes identify what the author identified.

  One counter goes on from text to text. What a scan registers is told whether the scan
  ends well or in a fault (`numbering`), so nothing is said about numbers that were taken
  and then forgotten by leaving them out. In the end the keycodes are those of one long
  list of markers (`numbering_flatten`), and the numbers in it are the same only where the
  author wrote them (`identified_from`).
-/

import Errand.Proofs.Wildcard.Grouping
import Errand.Proofs.Wildcard.Numbering

namespace Errand

/-! ## Texts scanned in a row -/

/-- What the scans of some texts come to, the counter going on from each to the next. -/
def scans (next : Int) : List Text → List (Except MarkerFault Found)
  | [] => []
  | t :: rest =>
    let (outcome, next') := (scan t).run next
    outcome :: scans next' rest

/-- The markers that these scans register, text by text. -/
def numbering (next : Int) : List Text → List (List Registered)
  | [] => []
  | t :: rest => registered next (Markup.read .sentence 0 t).markers :: numbering ((scan t).run next).2 rest

theorem accounts_scan (t : Text) (next : Int) : Accounts (Markup.read .sentence 0 t) next ((scan t).run next) :=
  run_number _ false next

theorem scan_next (t : Text) (next : Int) :
    ((scan t).run next).2 = nextAfter next (Markup.read .sentence 0 t).markers := by
  have h := accounts_scan t next
  rcases hrun : (scan t).run next with ⟨f | found, next'⟩
  · rw [hrun] at h
    exact h.2
  · rw [hrun] at h
    exact h.2.1

theorem scan_gives {t : Text} {next next' : Int} {found : Found} (h : (scan t).run next = (.ok found, next')) :
    List.Forall₂ Registered.Gives (registered next (Markup.read .sentence 0 t).markers) found.all := by
  have hall := accounts_scan t next
  rw [h] at hall
  exact hall.2.2

/-- Text after text or all at once, the markers get the same numbers. -/
theorem numbering_flatten (next : Int) (texts : List Text) :
    (numbering next texts).flatten =
      registered next (texts.flatMap fun t => (Markup.read .sentence 0 t).markers) := by
  induction texts generalizing next with
  | nil => rfl
  | cons t rest ih => rw [numbering, List.flatten_cons, ih, List.flatMap_cons, registered_append, scan_next]

/-! ## Keycodes of registered markers -/

theorem markers_proper_of_texts (texts : List Text) :
    ∀ m ∈ texts.flatMap fun t => (Markup.read .sentence 0 t).markers, m.Proper := by
  intro m hm
  obtain ⟨t, -, hm⟩ := List.mem_flatMap.mp hm
  exact Markup.markers_proper _ _ _ m hm

/-- A number is never negative, and it tells the written from the automatic. -/
theorem registered_number {next : Int} {ms : List Marker} (hms : ∀ m ∈ ms, m.Proper)
    (hnext : (firstAutomatic : Int) ≤ next) {r : Registered} (hr : r ∈ registered next ms) :
    0 ≤ r.number ∧ (r.IsAutomatic ↔ (firstAutomatic : Int) ≤ r.number) := by
  obtain ⟨-, ⟨k, hk, hwritten, hnumber⟩ | ⟨hauto, hlow, -⟩⟩ := registered_cases hms r hr
  · refine ⟨by omega, fun ha => ?_, fun hle => by omega⟩
    rw [Registered.IsAutomatic, hwritten] at ha
    cases ha
  · have hzero : (0 : Int) ≤ firstAutomatic := Int.natCast_nonneg _
    exact ⟨by omega, fun _ => by omega, fun _ => hauto⟩

theorem keycode_eq_iff {a b : Registered} (ha : a.marker.Proper) (hb : b.marker.Proper) (ha₀ : 0 ≤ a.number)
    (hb₀ : 0 ≤ b.number) : a.keycode = b.keycode ↔ a.marker.name = b.marker.name ∧ a.number = b.number := by
  obtain ⟨m, hm⟩ := Int.eq_ofNat_of_zero_le ha₀
  obtain ⟨n, hn⟩ := Int.eq_ofNat_of_zero_le hb₀
  rw [Registered.keycode, Registered.keycode, hm, hn, keycode_inj ha.small hb.small, Int.natCast_inj]

/-- Both markers were written with one and the same name and number. -/
def WrittenAlike (a b : Registered) : Prop :=
  ∃ k < firstAutomatic, a.marker.number = some k ∧ b.marker.number = some k ∧ a.marker.name = b.marker.name

theorem registered_keycodes {next : Int} {ms : List Marker} (hms : ∀ m ∈ ms, m.Proper)
    (hnext : (firstAutomatic : Int) ≤ next) :
    (registered next ms).Pairwise fun a b => a.keycode = b.keycode ↔ WrittenAlike a b := by
  refine (registered_pairwise hms hnext).imp_of_mem ?_
  intro a b ha hb hab
  obtain ⟨hpa, hca⟩ := registered_cases hms a ha
  obtain ⟨hpb, hcb⟩ := registered_cases hms b hb
  rw [keycode_eq_iff hpa hpb (registered_number hms hnext ha).1 (registered_number hms hnext hb).1]
  constructor
  · rintro ⟨hname, hnumber⟩
    obtain ⟨hna, hnb⟩ := hab hnumber
    obtain ⟨k, hk, hwa, hka⟩ := hca.resolve_right fun h => hna h.1
    obtain ⟨j, hj, hwb, hjb⟩ := hcb.resolve_right fun h => hnb h.1
    have hkj : k = j := by omega
    subst hkj
    exact ⟨k, hk, hwa, hwb, hname⟩
  · rintro ⟨k, -, hwa, hwb, hname⟩
    obtain ⟨i, -, hia, hna⟩ := hca.resolve_right fun h => by
      rw [Registered.IsAutomatic, hwa] at h
      cases h.1
    obtain ⟨j, -, hjb, hnb⟩ := hcb.resolve_right fun h => by
      rw [Registered.IsAutomatic, hwb] at h
      cases h.1
    rw [hwa] at hia
    rw [hwb] at hjb
    cases hia
    cases hjb
    exact ⟨hname, hna.trans hnb.symm⟩

/-! ## Groups of what was found -/

namespace Group

/-- The members of each group are the occurrences with its keycode, in their order. -/
def Sorts (ws : List Occurrence) (gs : List Group) : Prop :=
  ∀ g ∈ gs, g.members = ws.filter (·.keycode = g.keycode)

/-- A further occurrence comes last in its group, and into no other one. -/
theorem Sorts.insert {ws : List Occurrence} {gs : List Group} (h : Sorts ws gs) (hgrouped : Grouped ws gs)
    (w : Occurrence) : Sorts (ws ++ [w]) (insert w gs) := by
  intro g hg
  rw [List.filter_append]
  rcases insert_cases w gs with ⟨hnew, he⟩ | ⟨front, g₀, back, rfl, hk, he⟩
  · rw [he] at hg
    rcases List.mem_append.mp hg with hg | hg
    · have hne : w.keycode ≠ g.keycode := by
        intro e
        exact hnew (e ▸ List.mem_map_of_mem hg)
      simp [h g hg, hne]
    · rw [List.mem_singleton.mp hg]
      have hnone : ws.filter (·.keycode = w.keycode) = [] := by
        rw [List.filter_eq_nil_iff]
        intro x hx hxw
        obtain ⟨g', hg', hm⟩ := hgrouped.complete x hx
        refine hnew (List.mem_map.mpr ⟨g', hg', ?_⟩)
        rw [← hgrouped.alike g' hg' x hm]
        exact of_decide_eq_true hxw
      show [w] = ws.filter (·.keycode = w.keycode) ++ [w].filter (·.keycode = w.keycode)
      simp [hnone]
  · rw [he] at hg
    have hdistinct := hgrouped.distinct
    rw [List.map_append, List.map_cons, List.nodup_middle, List.nodup_cons] at hdistinct
    have hother : ∀ g' ∈ front ++ back, w.keycode ≠ g'.keycode := by
      intro g' hg' e
      refine hdistinct.1 ?_
      rw [← List.map_append, ← hk, e]
      exact List.mem_map_of_mem hg'
    rcases List.mem_append.mp hg with hg | hg
    · simp [h g (List.mem_append_left _ hg), hother g (List.mem_append_left _ hg)]
    · rcases List.mem_cons.mp hg with rfl | hg
      · have hold := h g₀ (List.mem_append_right _ List.mem_cons_self)
        show g₀.members ++ [w] = ws.filter (·.keycode = g₀.keycode) ++ [w].filter (·.keycode = g₀.keycode)
        simp [hold, hk]
      · simp [h g (List.mem_append_right _ (List.mem_cons_of_mem _ hg)), hother g (List.mem_append_right _ hg)]

theorem Sorts.foldl {ws : List Occurrence} {gs : List Group} (h : Sorts ws gs) (hgrouped : Grouped ws gs)
    (more : List Occurrence) : Sorts (ws ++ more) (more.foldl (fun gs w => Group.insert w gs) gs) := by
  induction more generalizing ws gs with
  | nil =>
    rw [List.append_nil]
    exact h
  | cons w more ih =>
    have hnext := ih (h.insert hgrouped w) (hgrouped.insert w)
    rwa [List.append_assoc] at hnext

theorem sorts_ofOccurrences (ws : List Occurrence) : Sorts ws (ofOccurrences ws) := by
  have hnone : Grouped [] [] := ⟨List.nodup_nil, by simp, by simp, by simp⟩
  have hsorts : Sorts [] [] := by simp [Sorts]
  exact hsorts.foldl hnone ws

end Group

/-- Of several with one keycode none is automatic if this holds of any two. -/
theorem eq_singleton_of_alike {l : List Occurrence} {key : Text} (hkey : ∀ x ∈ l, x.keycode = key)
    (hl : l.Pairwise fun a b => a.keycode = b.keycode →
      ¬(firstAutomatic : Int) ≤ a.number ∧ ¬(firstAutomatic : Int) ≤ b.number)
    {w : Occurrence} (hw : w ∈ l) (hauto : (firstAutomatic : Int) ≤ w.number) : l = [w] := by
  rcases l with _ | ⟨a, _ | ⟨b, rest⟩⟩
  · cases hw
  · rw [List.mem_singleton.mp hw]
  · -- the first is related to all others, so each of them is a written one
    have halike : ∀ x ∈ b :: rest, ¬(firstAutomatic : Int) ≤ a.number ∧ ¬(firstAutomatic : Int) ≤ x.number := by
      intro x hx
      refine (List.pairwise_cons.mp hl).1 x hx ?_
      rw [hkey a List.mem_cons_self, hkey x (List.mem_cons_of_mem _ hx)]
    rcases List.mem_cons.mp hw with rfl | hw
    · exact absurd hauto (halike b List.mem_cons_self).1
    · exact absurd hauto (halike w hw).2

theorem Registered.keys_eq {rs : List Registered} {ws : List Occurrence} (h : List.Forall₂ Gives rs ws) :
    ws.map (fun w => (w.keycode, w.number)) = rs.map fun r => (r.keycode, r.number) := by
  induction h with
  | nil => rfl
  | cons hrw _ ih => simp only [List.map_cons, ih, hrw.keycode, hrw.number]

/-- Two occurrences with one keycode have no automatic number. -/
theorem found_pairwise {t : Text} {next next' : Int} {found : Found} (hnext : (firstAutomatic : Int) ≤ next)
    (h : (scan t).run next = (.ok found, next')) :
    found.all.Pairwise fun a b => a.keycode = b.keycode →
      ¬(firstAutomatic : Int) ≤ a.number ∧ ¬(firstAutomatic : Int) ≤ b.number := by
  have hproper := Markup.markers_proper .sentence 0 t
  have hkeys : (found.all.map fun w => (w.keycode, w.number)).Pairwise fun a b => a.1 = b.1 →
      ¬(firstAutomatic : Int) ≤ a.2 ∧ ¬(firstAutomatic : Int) ≤ b.2 := by
    rw [Registered.keys_eq (scan_gives h), List.pairwise_map]
    refine (registered_keycodes hproper hnext).imp_of_mem ?_
    intro a b ha hb hab e
    obtain ⟨k, -, hwa, hwb, -⟩ := hab.mp e
    rw [← (registered_number hproper hnext ha).2, ← (registered_number hproper hnext hb).2]
    simp [Registered.IsAutomatic, hwa, hwb]
  exact List.pairwise_map.mp hkeys

/-- An automatic occurrence is alone in its group. -/
theorem alone_of_run {t : Text} {next next' : Int} {found : Found} (hnext : (firstAutomatic : Int) ≤ next)
    (h : (scan t).run next = (.ok found, next')) {g : Group} (hg : g ∈ Group.ofOccurrences found.all)
    {w : Occurrence} (hw : w ∈ g.members) (hauto : (firstAutomatic : Int) ≤ w.number) : g.members = [w] := by
  have hmembers := Group.sorts_ofOccurrences found.all g hg
  have hkey : ∀ x ∈ g.members, x.keycode = g.keycode := by
    intro x hx
    rw [hmembers] at hx
    exact of_decide_eq_true (List.mem_filter.mp hx).2
  refine eq_singleton_of_alike hkey ?_ hw hauto
  rw [hmembers]
  exact (found_pairwise hnext h).filter _

/-! ## All of it -/

/-- Keycodes identify what the author identified, in texts scanned with a counter that is
    at `next`. -/
structure Identified (next : Int) (texts : List Text) : Prop where
  /-- Occurrences are the registered markers with the numbers told here. -/
  told : List.Forall₂ (fun rs outcome => ∀ found, outcome = .ok found → List.Forall₂ Registered.Gives rs found.all)
    (numbering next texts) (scans next texts)
  /-- Two markers have one keycode only if the author gave it to both. -/
  keycodes : (numbering next texts).flatten.Pairwise fun a b => a.keycode = b.keycode ↔ WrittenAlike a b
  /-- Automatic numbers are those that no author may write. -/
  automatic : ∀ r ∈ (numbering next texts).flatten, r.IsAutomatic ↔ (firstAutomatic : Int) ≤ r.number
  /-- With an automatic number one is alone in its group. -/
  alone : ∀ found, .ok found ∈ scans next texts → ∀ g ∈ Group.ofOccurrences found.all, ∀ w ∈ g.members,
    (firstAutomatic : Int) ≤ w.number → g.members = [w]

theorem scans_told (next : Int) (texts : List Text) :
    List.Forall₂ (fun rs outcome => ∀ found, outcome = .ok found → List.Forall₂ Registered.Gives rs found.all)
      (numbering next texts) (scans next texts) := by
  induction texts generalizing next with
  | nil => exact .nil
  | cons t rest ih =>
    refine .cons ?_ (ih _)
    intro found hfound
    exact scan_gives (Prod.ext hfound rfl)

theorem alone_in_scans {next : Int} (hnext : (firstAutomatic : Int) ≤ next) (texts : List Text) :
    ∀ found, .ok found ∈ scans next texts → ∀ g ∈ Group.ofOccurrences found.all, ∀ w ∈ g.members,
      (firstAutomatic : Int) ≤ w.number → g.members = [w] := by
  induction texts generalizing next with
  | nil =>
    intro found hfound
    cases hfound
  | cons t rest ih =>
    intro found hfound g hg w hw hauto
    rcases List.mem_cons.mp hfound with hfound | hfound
    · exact alone_of_run hnext (Prod.ext hfound.symm rfl) hg hw hauto
    · have hle : next ≤ ((scan t).run next).2 := by
        rw [scan_next]
        exact le_nextAfter _ _
      exact ih (Int.le_trans hnext hle) found hfound g hg w hw hauto

theorem identified_from {next : Int} (hnext : (firstAutomatic : Int) ≤ next) (texts : List Text) :
    Identified next texts where
  told := scans_told next texts
  keycodes := by
    rw [numbering_flatten]
    exact registered_keycodes (markers_proper_of_texts texts) hnext
  automatic := by
    rw [numbering_flatten]
    exact fun r hr => (registered_number (markers_proper_of_texts texts) hnext hr).2
  alone := alone_in_scans hnext texts

end Errand
