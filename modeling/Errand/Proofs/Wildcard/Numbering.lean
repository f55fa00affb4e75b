/-
  Errand.Proofs.Wildcard.Numbering — which marker gets which number.

  The markers of a text have an order that no counter has a part in: an outer one before
  those in its clause, these before those in its metadata, and nothing behind the first
  fault (`Markup.markers`). A scan goes through them in this order. A marker keeps the number
  it is written with, any other takes the next automatic one (`registered`). This is so
  for a scan that ends in a fault as well, except that nobody is told what was found
  (`run_number`).

  Written numbers are below the first automatic one (`markers_proper`), and automatic ones
  only grow. So two of the numbers given are the same only if both were written
  (`registered_pairwise`).
-/

import Errand.Proofs.Text.Readers
import Errand.Proofs.Wildcard.Keycodes
import Errand.Proofs.Wildcard.Plain
import Errand.Wildcard.Markup
import Mathlib.Data.List.Forall2

namespace Errand

/-! ## The markers of a text -/

namespace Markup

/-- The fault that ends the reading, be it in what is nested. -/
def fault? : Markup → Option MarkerFault
  | done => none
  | fault f => some f
  | char _ rest => rest.fault?
  | marker _ _ clause metadata rest => clause.fault?.or (metadata.fault?.or rest.fault?)

/-- The markers in the order of their numbers, up to a fault. -/
def markers : Markup → List Marker
  | done => []
  | fault _ => []
  | char _ rest => rest.markers
  | marker m _ clause metadata rest =>
    m :: clause.markers ++ if clause.fault?.isSome then [] else
      metadata.markers ++ if metadata.fault?.isSome then [] else rest.markers

end Markup

/-! ## Numbers given -/

/-- A marker and the number it has got. -/
structure Registered where
  marker : Marker
  number : Int

namespace Registered

def keycode (r : Registered) : Text := Errand.keycode r.marker.name r.number

/-- The marker was written without a number. -/
def IsAutomatic (r : Registered) : Prop := r.marker.number = none

/-- An occurrence is that of a marker with its number. -/
def Gives (r : Registered) (w : Occurrence) : Prop :=
  ∃ place nested clause metadata, w = Markup.occurrence r.marker place nested r.number clause metadata

theorem Gives.number {r : Registered} {w : Occurrence} (h : r.Gives w) : w.number = r.number := by
  obtain ⟨place, nested, clause, metadata, rfl⟩ := h
  rfl

theorem Gives.keycode {r : Registered} {w : Occurrence} (h : r.Gives w) : w.keycode = r.keycode := by
  obtain ⟨place, nested, clause, metadata, rfl⟩ := h
  rfl

end Registered

/-- The numbers that markers get, the next automatic one being given. -/
def registered (next : Int) : List Marker → List Registered
  | [] => []
  | m :: ms =>
    match m.number with
    | some n => ⟨m, n⟩ :: registered next ms
    | none => ⟨m, next⟩ :: registered (next + 1) ms

/-- The next automatic number when some markers have theirs. -/
def nextAfter (next : Int) (ms : List Marker) : Int := next + ms.countP (·.number.isNone)

theorem nextAfter_nil (next : Int) : nextAfter next [] = next := by simp [nextAfter]

theorem nextAfter_cons_some {m : Marker} {n : Nat} (h : m.number = some n) (next : Int) (ms : List Marker) :
    nextAfter next (m :: ms) = nextAfter next ms := by
  simp [nextAfter, h]

theorem nextAfter_cons_none {m : Marker} (h : m.number = none) (next : Int) (ms : List Marker) :
    nextAfter next (m :: ms) = nextAfter (next + 1) ms := by
  simp only [nextAfter, List.countP_cons, h, Option.isNone_none, if_true]
  omega

theorem nextAfter_append (next : Int) (ms ms' : List Marker) :
    nextAfter next (ms ++ ms') = nextAfter (nextAfter next ms) ms' := by
  simp only [nextAfter, List.countP_append]
  omega

theorem le_nextAfter (next : Int) (ms : List Marker) : next ≤ nextAfter next ms := by
  simp only [nextAfter]
  omega

theorem registered_append (next : Int) (ms ms' : List Marker) :
    registered next (ms ++ ms') = registered next ms ++ registered (nextAfter next ms) ms' := by
  induction ms generalizing next with
  | nil => rw [nextAfter_nil]; rfl
  | cons m ms ih =>
    rcases hm : m.number with _ | n
    · simp only [List.cons_append, registered, hm, ih, nextAfter_cons_none hm]
    · simp only [List.cons_append, registered, hm, ih, nextAfter_cons_some hm]

/-! ## A scan gives these numbers -/

theorem run_numberOf_some {m : Marker} {k : Nat} (h : m.number = some k) (n : Int) :
    (Markup.numberOf m).run n = (.ok (k : Int), n) := by
  simp only [Markup.numberOf, h]
  rfl

theorem run_numberOf_none {m : Marker} (h : m.number = none) (n : Int) :
    (Markup.numberOf m).run n = (.ok n, n + 1) := by
  simp only [Markup.numberOf, h]
  rfl

/-- What a run has to do with the markers of a markup and its fault. -/
def Accounts (m : Markup) (n : Int) : Except MarkerFault Found × Int → Prop
  | (.error f, n') => m.fault? = some f ∧ n' = nextAfter n m.markers
  | (.ok found, n') => m.fault? = none ∧ n' = nextAfter n m.markers ∧
      List.Forall₂ Registered.Gives (registered n m.markers) found.all

/-- What a marker and all that is nested in it get. -/
theorem accounts_marker {m : Marker} {place : Nat} {nested : Bool} {n n₀ : Int} {k : Int}
    {clause metadata rest : Markup} (hk : (Markup.numberOf m).run n = (.ok k, n₀))
    (hreg : ∀ ms, registered n (m :: ms) = ⟨m, k⟩ :: registered n₀ ms)
    (hnext : ∀ ms, nextAfter n (m :: ms) = nextAfter n₀ ms)
    (hc : ∀ n, Accounts clause n ((clause.number true).run n))
    (hd : ∀ n, Accounts metadata n ((metadata.number true).run n))
    (hr : ∀ n, Accounts rest n ((rest.number nested).run n)) :
    Accounts (.marker m place clause metadata rest) n
      (((Markup.marker m place clause metadata rest).number nested).run n) := by
  rw [Markup.number, run_bind_ok hk]
  have hclause := hc n₀
  rcases hrun : (clause.number true).run n₀ with ⟨f | c, n₁⟩
  · rw [hrun] at hclause
    obtain ⟨hf, hn⟩ := hclause
    rw [run_bind_error hrun]
    simp [Accounts, Markup.fault?, Markup.markers, hf, hnext, hn]
  rw [hrun] at hclause
  obtain ⟨hf, hn, hall⟩ := hclause
  rw [run_bind_ok hrun]
  have hmetadata := hd n₁
  rcases hrun' : (metadata.number true).run n₁ with ⟨f | d, n₂⟩
  · rw [hrun'] at hmetadata
    obtain ⟨hf', hn'⟩ := hmetadata
    rw [run_bind_error hrun']
    simp [Accounts, Markup.fault?, Markup.markers, hf, hf', hnext, nextAfter_append, ← hn, hn']
  rw [hrun'] at hmetadata
  obtain ⟨hf', hn', hall'⟩ := hmetadata
  rw [run_bind_ok hrun']
  have hrest := hr n₂
  rcases hrun'' : (rest.number nested).run n₂ with ⟨f | r, n₃⟩
  · rw [hrun''] at hrest
    obtain ⟨hf'', hn''⟩ := hrest
    rw [run_bind_error hrun'']
    simp [Accounts, Markup.fault?, Markup.markers, hf, hf', hf'', hnext, nextAfter_append, ← hn, ← hn', hn'']
  rw [hrun''] at hrest
  obtain ⟨hf'', hn'', hall''⟩ := hrest
  rw [run_bind_ok hrun'']
  have hmarkers : (Markup.marker m place clause metadata rest).markers =
      m :: (clause.markers ++ (metadata.markers ++ rest.markers)) := by
    simp [Markup.markers, hf, hf']
  refine ⟨by simp [Markup.fault?, hf, hf', hf''], ?_, ?_⟩
  · rw [hmarkers, hnext, nextAfter_append, nextAfter_append, ← hn, ← hn', ← hn'']
  · rw [hmarkers, hreg, registered_append, registered_append, ← hn, ← hn']
    refine .cons ⟨place, nested, c.text, d.text, rfl⟩ ?_
    have hfound : c.all ++ d.all ++ r.all = c.all ++ (d.all ++ r.all) := List.append_assoc _ _ _
    show List.Forall₂ Registered.Gives _ (c.all ++ d.all ++ r.all)
    rw [hfound]
    exact List.rel_append hall (List.rel_append hall' hall'')

/-- A scan takes the markers in their order and stops where the reading does. -/
theorem run_number (m : Markup) (nested : Bool) (n : Int) : Accounts m n ((m.number nested).run n) := by
  induction m generalizing nested n with
  | done => exact ⟨rfl, (nextAfter_nil n).symm, .nil⟩
  | fault f => exact ⟨rfl, (nextAfter_nil n).symm⟩
  | char c rest ih =>
    have hrest := ih nested n
    rw [Markup.number]
    rcases hrun : (rest.number nested).run n with ⟨f | r, n'⟩
    · rw [hrun] at hrest
      rw [run_bind_error hrun]
      exact hrest
    · rw [hrun] at hrest
      rw [run_bind_ok hrun]
      exact hrest
  | marker m place clause metadata rest ihc ihd ihr =>
    rcases hm : m.number with _ | k
    · refine accounts_marker (run_numberOf_none hm n) ?_ (nextAfter_cons_none hm n) (ihc true) (ihd true) (ihr nested)
      intro ms
      simp [registered, hm]
    · refine accounts_marker (run_numberOf_some hm n) ?_ (nextAfter_cons_some hm n) (ihc true) (ihd true) (ihr nested)
      intro ms
      simp [registered, hm]

/-! ## Markers as they are read -/

/-- A name of small letters, and a number below the automatic ones if there is one. -/
structure Marker.Proper (m : Marker) : Prop where
  small : Small m.name
  below : ∀ n ∈ m.number, n < firstAutomatic

theorem Marker.proper_of_read {t after : Text} {m : Marker} (h : read t = .ok (some (m, after))) : m.Proper := by
  obtain ⟨head, afterHead, body, hhead, -, hbelow, rfl⟩ := read_eq_ok_iff.mp h
  rw [MarkerHead.read] at hhead
  split at hhead
  · cases hhead
  · cases hhead
    exact ⟨fun c hc => List.all_eq_true.mp List.all_takeWhile c hc, hbelow⟩
  · cases hhead

theorem Markup.markers_proper (kind : MarkupKind) (place : Nat) (t : Text) :
    ∀ m ∈ (read kind place t).markers, m.Proper := by
  fun_induction read kind place t with
  | case1 => simp [markers]
  | case2 => simpa [markers]
  | case3 kind place c rest _ ih =>
    rw [escaped]
    split <;> simpa [markers]
  | case4 => simp [markers]
  | case5 => simpa [markers]
  | case6 kind place rest m after hr _ ihc ihd ih =>
    intro m' hm'
    rw [markers] at hm'
    rcases List.mem_append.mp hm' with hm' | hm'
    · rcases List.mem_cons.mp hm' with rfl | hm'
      · exact Marker.proper_of_read hr
      · exact ihc m' hm'
    · split at hm'
      · cases hm'
      · rcases List.mem_append.mp hm' with hm' | hm'
        · exact ihd m' hm'
        · split at hm'
          · cases hm'
          · exact ih m' hm'
  | case7 => simpa [markers]

/-! ## The same number twice -/

/-- A number is written and below the automatic ones, or it is one of these. -/
theorem registered_cases {next : Int} {ms : List Marker} (hms : ∀ m ∈ ms, m.Proper) :
    ∀ r ∈ registered next ms, r.marker.Proper ∧
      ((∃ k < firstAutomatic, r.marker.number = some k ∧ r.number = k) ∨
        r.IsAutomatic ∧ next ≤ r.number ∧ r.number < nextAfter next ms) := by
  induction ms generalizing next with
  | nil =>
    intro r hr
    cases hr
  | cons m ms ih =>
    have hrest : ∀ m' ∈ ms, m'.Proper := fun m' hm' => hms m' (List.mem_cons_of_mem _ hm')
    have hproper := hms m List.mem_cons_self
    intro r hr
    rcases hm : m.number with _ | k
    · simp only [registered, hm, List.mem_cons] at hr
      rw [nextAfter_cons_none hm]
      rcases hr with rfl | hr
      · exact ⟨hproper, Or.inr ⟨hm, Int.le_refl _, Int.lt_of_lt_of_le (Int.lt_succ next) (le_nextAfter _ _)⟩⟩
      · obtain ⟨hp, hw | ⟨ha, hlow, hhigh⟩⟩ := ih hrest r hr
        · exact ⟨hp, Or.inl hw⟩
        · exact ⟨hp, Or.inr ⟨ha, by omega, hhigh⟩⟩
    · simp only [registered, hm, List.mem_cons] at hr
      rw [nextAfter_cons_some hm]
      rcases hr with rfl | hr
      · exact ⟨hproper, Or.inl ⟨k, hproper.below k hm, hm, rfl⟩⟩
      · exact ih hrest r hr

/-- Two markers have one number only if it was written in both. -/
theorem registered_pairwise {next : Int} {ms : List Marker} (hms : ∀ m ∈ ms, m.Proper)
    (hnext : (firstAutomatic : Int) ≤ next) :
    (registered next ms).Pairwise fun a b => a.number = b.number → ¬a.IsAutomatic ∧ ¬b.IsAutomatic := by
  induction ms generalizing next with
  | nil => exact .nil
  | cons m ms ih =>
    have hrest : ∀ m' ∈ ms, m'.Proper := fun m' hm' => hms m' (List.mem_cons_of_mem _ hm')
    rcases hm : m.number with _ | k
    · simp only [registered, hm]
      refine .cons ?_ (ih hrest (by omega))
      intro b hb e
      rcases (registered_cases hrest b hb).2 with ⟨j, hj, -, hbj⟩ | ⟨-, hlow, -⟩
      · dsimp only at e
        omega
      · dsimp only at e
        omega
    · simp only [registered, hm]
      refine .cons ?_ (ih hrest hnext)
      intro b hb e
      have hk := (hms m List.mem_cons_self).below k hm
      rcases (registered_cases hrest b hb).2 with ⟨j, -, hbj, -⟩ | ⟨-, hlow, -⟩
      · simp [Registered.IsAutomatic, hm, hbj]
      · dsimp only at e
        omega

end Errand
