/-
  Errand.Proofs.Entity.Records — lists of records that have a key each.

  A record is put into a list at the place where its key is, or at the end if it is new
  (`PutAt`). So the keys stay different from each other (`PutAt.nodup`), and every record
  stays where it is and keeps its key (`PutAt.kept`).
-/

import Errand.Entity.Store
import Mathlib.Data.List.Nodup

namespace Errand
variable {α κ : Type}

/-! ## Records that stay -/

/-- Every record stays at its place and changes no more than allowed. -/
def Kept (R : α → α → Prop) (l l' : List α) : Prop := ∀ (i : Nat) (x : α), l[i]? = some x → ∃ x', l'[i]? = some x' ∧ R x x'

namespace Kept
variable {R : α → α → Prop} {l l' l'' : List α}

theorem refl (hR : ∀ x, R x x) (l : List α) : Kept R l l := fun _ x hx => ⟨x, hx, hR x⟩

theorem trans (hR : ∀ x y z, R x y → R y z → R x z) (h : Kept R l l') (h' : Kept R l' l'') : Kept R l l'' := by
  intro i x hx
  obtain ⟨y, hy, hxy⟩ := h i x hx
  obtain ⟨z, hz, hyz⟩ := h' i y hy
  exact ⟨z, hz, hR x y z hxy hyz⟩

theorem append (hR : ∀ x, R x x) (l added : List α) : Kept R l (l ++ added) := by
  intro i x hx
  have hi : i < l.length := (List.getElem?_eq_some_iff.mp hx).1
  exact ⟨x, by rw [List.getElem?_append_left hi, hx], hR x⟩

theorem modify (hR : ∀ x, R x x) {f : α → α} (hf : ∀ x, R x (f x)) (l : List α) (i : Nat) :
    Kept R l (l.modify i f) := by
  intro j x hx
  rw [List.getElem?_modify, hx]
  refine ⟨if i = j then f x else x, rfl, ?_⟩
  by_cases hij : i = j
  · rw [if_pos hij]
    exact hf x
  · rw [if_neg hij]
    exact hR x

/-- A list of which all records stay does not shrink. -/
theorem length_le (h : Kept R l l') : l.length ≤ l'.length := by
  refine Nat.le_of_not_lt ?_
  intro hlt
  obtain ⟨x', hx', -⟩ := h l'.length l[l'.length] (List.getElem?_eq_getElem hlt)
  exact Nat.lt_irrefl _ (List.getElem?_eq_some_iff.mp hx').1

end Kept

/-! ## Records that are put in -/

theorem map_modify {g : α → κ} {f : α → α} (hf : ∀ x, g (f x) = g x) (l : List α) (i : Nat) :
    (l.modify i f).map g = l.map g := by
  refine List.ext_getElem? ?_
  intro j
  rw [List.getElem?_map, List.getElem?_map, List.getElem?_modify]
  rcases l[j]? with _ | x
  · rfl
  · by_cases hij : i = j
    · simp [if_pos hij, hf]
    · simp [if_neg hij]

theorem mem_modify {f : α → α} {l : List α} {i : Nat} {y : α} (h : y ∈ l.modify i f) : y ∈ l ∨ ∃ x ∈ l, y = f x := by
  obtain ⟨j, hj⟩ := List.mem_iff_getElem?.mp h
  rw [List.getElem?_modify] at hj
  rcases hx : l[j]? with _ | x
  · rw [hx] at hj
    cases hj
  · rw [hx] at hj
    have hmem : x ∈ l := List.mem_iff_getElem?.mpr ⟨j, hx⟩
    have hy : (if i = j then f x else x) = y := Option.some.inj hj
    by_cases hij : i = j
    · rw [if_pos hij] at hy
      exact Or.inr ⟨x, hmem, hy.symm⟩
    · rw [if_neg hij] at hy
      exact Or.inl (hy ▸ hmem)

/-- A list after a record of a key was put in: the record is new, or the one that has the key
    already is changed. `i` is the place it has. -/
inductive PutAt (g : α → κ) (k : κ) (new : α) (change : α → α) (l : List α) : List α → Nat → Prop
  | added : k ∉ l.map g → PutAt g k new change l (l ++ [new]) l.length
  | merged {i : Nat} {x : α} : l[i]? = some x → g x = k → PutAt g k new change l (l.modify i change) i

/-- The place is that of the first record with the key. -/
theorem putAt_of_findIdx? {g : α → κ} {k : κ} {p : α → Bool} (hp : ∀ x, p x = true ↔ g x = k) (new : α)
    (change : α → α) (l : List α) :
    PutAt g k new change l ((l.findIdx? p).elim (l ++ [new]) fun i => l.modify i change)
      ((l.findIdx? p).getD l.length) := by
  rcases h : l.findIdx? p with _ | i
  · refine .added ?_
    intro hk
    obtain ⟨x, hx, hgx⟩ := List.mem_map.mp hk
    have hnot := List.findIdx?_eq_none_iff.mp h x hx
    rw [(hp x).mpr hgx] at hnot
    cases hnot
  · obtain ⟨hi, hpx, -⟩ := List.findIdx?_eq_some_iff_getElem.mp h
    exact .merged (List.getElem?_eq_getElem hi) ((hp _).mp hpx)

namespace PutAt
variable {g : α → κ} {k : κ} {new : α} {change : α → α} {l l' : List α} {i : Nat}

theorem kept {R : α → α → Prop} (h : PutAt g k new change l l' i) (hR : ∀ x, R x x) (hchange : ∀ x, R x (change x)) :
    Kept R l l' := by
  cases h with
  | added _ => exact Kept.append hR l [new]
  | merged _ _ => exact Kept.modify hR hchange l i

/-- The record that has the place in the end is the new one or one that was changed. -/
theorem found (h : PutAt g k new change l l' i) : ∃ x, l'[i]? = some x ∧ (x = new ∨ ∃ y, g y = k ∧ x = change y) := by
  cases h with
  | added _ => exact ⟨new, List.getElem?_concat_length, Or.inl rfl⟩
  | merged hx hk =>
    rw [List.getElem?_modify_eq, hx]
    exact ⟨_, rfl, Or.inr ⟨_, hk, rfl⟩⟩

theorem mem (h : PutAt g k new change l l' i) {x : α} (hx : x ∈ l') : x = new ∨ x ∈ l ∨ ∃ y ∈ l, x = change y := by
  cases h with
  | added _ =>
    rcases List.mem_append.mp hx with hx | hx
    · exact Or.inr (Or.inl hx)
    · exact Or.inl (List.mem_singleton.mp hx)
  | merged _ _ => exact Or.inr (mem_modify hx)

theorem nodup (h : PutAt g k new change l l' i) (hnew : g new = k) (hchange : ∀ x, g (change x) = g x)
    (hl : (l.map g).Nodup) : (l'.map g).Nodup := by
  cases h with
  | added hk =>
    rw [List.map_append, List.nodup_append]
    refine ⟨hl, List.nodup_singleton _, fun a ha b hb e => hk ?_⟩
    rw [List.mem_singleton.mp hb, hnew] at e
    exact e ▸ ha
  | merged _ _ =>
    rw [map_modify hchange]
    exact hl

end PutAt

end Errand
