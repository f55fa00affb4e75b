/-
  Errand.Proofs.Random.Shuffle — what comes of a shuffle.

  Whatever the picks, a shuffled list is a rearrangement of the list it was made from
  (`Shuffle.list_perm`). Of items that all differ there are as many orders as picks: once the
  place `n` has been swapped, later swaps leave it alone (`Shuffle.arrange_behind`), so the order
  tells each pick, from the last place to the first (`Shuffle.arrange_injective`), and picks can be
  chosen to put each place right (`Shuffle.arrange_surjective`).

  - `Shuffle.fair`: the draws for the places of a list, each among the places up to its own, and the
    orders of the list belong to each other one to one.
-/

import Errand.Random.Seeded
import Mathlib.Logic.Function.Basic

namespace Errand

/-! ## Nothing is lost -/

theorem Shuffle.arrange_perm {α : Type} {n : Nat} (picks : Picks n) (items : Array α) (h : n ≤ items.size) :
    (Shuffle.arrange picks items h).Perm items := by
  induction picks generalizing items with
  | done => exact .refl _
  | pick place rest ih => exact (ih _ _).trans (Array.swap_perm _ _)

theorem Shuffle.list_perm {α : Type} (items : List α) (picks : Picks items.length) :
    (Shuffle.list items picks).Perm items :=
  (Shuffle.arrange_perm picks items.toArray (by simp)).toList

theorem RandomSource.shuffle_perm {σ α : Type} [RandomSource σ] (items : List α) (s : σ) :
    (RandomSource.shuffle items s).1.Perm items :=
  Shuffle.list_perm items _

/-! ## Picks as draws at places -/

namespace Picks

/-- The picks of a shuffle in which `draw i` is swapped to the place `i`. -/
def ofDraws (draw : (i : Nat) → Fin (i + 1)) : (n : Nat) → Picks n
  | 0 => .done
  | n + 1 => .pick (draw n) (ofDraws draw n)

theorem ofDraws_eq_iff {draw draw' : (i : Nat) → Fin (i + 1)} {n : Nat} :
    ofDraws draw n = ofDraws draw' n ↔ ∀ i < n, draw i = draw' i := by
  induction n with
  | zero =>
    constructor
    · intro _ i hi
      omega
    · intro _
      rfl
  | succ n ih =>
    rw [ofDraws, ofDraws, pick.injEq, ih]
    constructor
    · intro ⟨hlast, hbefore⟩ i hi
      by_cases e : i = n
      · subst e
        exact hlast
      · exact hbefore i (by omega)
    · intro h
      exact ⟨h n (by omega), fun i hi => h i (by omega)⟩

/-- All picks are made of draws. -/
theorem exists_ofDraws {n : Nat} (picks : Picks n) : ∃ draw, ofDraws draw n = picks := by
  induction picks with
  | done => exact ⟨fun _ => 0, rfl⟩
  | @pick n place rest ih =>
    obtain ⟨draw, rfl⟩ := ih
    refine ⟨Function.update draw n place, ?_⟩
    rw [ofDraws, Function.update_self, pick.injEq, ofDraws_eq_iff]
    refine ⟨rfl, fun i hi => ?_⟩
    exact Function.update_of_ne (by omega) _ _

end Picks

/-- A seeded shuffle draws from the last place to the second, each time among all places up to its
    own; the first place leaves no choice. `states i` is the generator when the places from `i` on
    have been drawn for. -/
theorem Seeded.picksFrom_draws (n : Nat) (t : Twister) :
    ∃ (draw : (i : Nat) → Fin (i + 1)) (states : Nat → Twister), Seeded.picksFrom n t = .ofDraws draw n ∧
      states n = t ∧ ∀ i, 0 < i → i < n → ((draw i).val, states i) = (states (i + 1)).below (i + 1) := by
  induction n generalizing t with
  | zero => exact ⟨fun _ => 0, fun _ => t, rfl, rfl, fun i _ hi => by omega⟩
  | succ n ih =>
    cases n with
    | zero => exact ⟨fun _ => 0, fun _ => t, rfl, rfl, fun i hpos hi => by omega⟩
    | succ n =>
      obtain ⟨draw, states, hrest, hstate, hdraw⟩ := ih (t.below (n + 2)).2
      refine ⟨Function.update draw (n + 1) ⟨(t.below (n + 2)).1, Twister.below_lt (by omega) t⟩,
        Function.update states (n + 2) t, ?_, Function.update_self _ _ _, ?_⟩
      · rw [Seeded.picksFrom, Picks.ofDraws, Function.update_self, Picks.pick.injEq, hrest, Picks.ofDraws_eq_iff]
        refine ⟨rfl, fun i hi => ?_⟩
        exact (Function.update_of_ne (by omega) _ _).symm
      · intro i hpos hi
        rw [Function.update_of_ne (by omega : i ≠ n + 2)]
        by_cases e : i = n + 1
        · subst e
          rw [Function.update_self, Function.update_self, hstate]
        · rw [Function.update_of_ne e, Function.update_of_ne (by omega : i + 1 ≠ n + 2)]
          exact hdraw i hpos (by omega)

/-! ## Orders and picks -/

namespace Shuffle
variable {α : Type}

theorem swap_left {items : Array α} {i j : Nat} (hi : i < items.size) (hj : j < items.size) :
    (items.swap i j hi hj)[i]? = items[j]? := by
  rw [Array.getElem?_eq_getElem (by rw [Array.size_swap]; exact hi), Array.getElem_swap_left,
    Array.getElem?_eq_getElem hj]

theorem swap_of_lt {items : Array α} {i j k : Nat} (hi : i < items.size) (hj : j < items.size) (hik : i < k)
    (hjk : j < k) : (items.swap i j hi hj)[k]? = items[k]? := by
  rw [Array.getElem?_swap, if_neg (by omega), if_neg (by omega)]

/-- The places from `n` on are as they were. -/
theorem arrange_behind {n : Nat} (picks : Picks n) (items : Array α) (h : n ≤ items.size) {i : Nat} (hi : n ≤ i) :
    (arrange picks items h)[i]? = items[i]? := by
  induction picks generalizing items with
  | done => rfl
  | @pick n place rest ih =>
    have hplace := place.isLt
    rw [arrange, ih _ _ (by omega), swap_of_lt _ _ (by omega) (by omega)]

/-- The last place holds what was picked for it. -/
theorem arrange_last {n : Nat} (place : Fin (n + 1)) (rest : Picks n) (items : Array α) (h : n + 1 ≤ items.size) :
    (arrange (.pick place rest) items h)[n]? = items[place.val]? := by
  rw [arrange, arrange_behind rest _ _ (Nat.le_refl n), swap_left]

theorem nodup_swap {items : Array α} {i j : Nat} {hi : i < items.size} {hj : j < items.size}
    (h : items.toList.Nodup) : (items.swap i j hi hj).toList.Nodup :=
  (Array.swap_perm hi hj).toList.nodup_iff.mpr h

/-- Items that all differ have one place each. -/
theorem place_eq {items : Array α} (h : items.toList.Nodup) {i j : Nat} (hi : i < items.size)
    (he : items[i]? = items[j]?) : i = j := by
  rw [← Array.getElem?_toList, ← Array.getElem?_toList] at he
  exact (List.getElem?_inj hi h).mp he

/-- The order tells the picks. -/
theorem arrange_injective {n : Nat} (picks picks' : Picks n) (items : Array α) (hn : n ≤ items.size)
    (hnodup : items.toList.Nodup) (h : arrange picks items hn = arrange picks' items hn) : picks = picks' := by
  induction picks generalizing items with
  | done =>
    cases picks'
    rfl
  | @pick n place rest ih =>
    cases picks' with
    | pick place' rest' =>
      have hlast : items[place.val]? = items[place'.val]? := by
        rw [← arrange_last place rest items hn, h, arrange_last]
      have hplace : place = place' := Fin.ext (place_eq hnodup (by omega) hlast)
      subst hplace
      rw [arrange, arrange] at h
      rw [ih rest' _ _ (nodup_swap hnodup) h]

/-- An order that keeps the places from `n` on is come to by picks for the places before. -/
theorem arrange_surjective {n : Nat} (items order : Array α) (hn : n ≤ items.size) (hnodup : items.toList.Nodup)
    (hperm : order.Perm items) (hbehind : ∀ i, n ≤ i → order[i]? = items[i]?) :
    ∃ picks, arrange picks items hn = order := by
  induction n generalizing items with
  | zero =>
    refine ⟨.done, ?_⟩
    show items = order
    exact (Array.ext_getElem? fun i => hbehind i (Nat.zero_le i)).symm
  | succ n ih =>
    have hsize := hperm.size_eq
    have horder : order.toList.Nodup := hperm.toList.nodup_iff.mpr hnodup
    -- what the order has at the place `n` is picked from where it is now, which is not behind `n`
    obtain ⟨j, hj, hitem⟩ := Array.mem_iff_getElem.mp (hperm.mem_iff.mp (Array.getElem_mem (i := n) (by omega)))
    have hat : items[j]? = order[n]? := by
      rw [Array.getElem?_eq_getElem hj, hitem, Array.getElem?_eq_getElem]
    have hle : j < n + 1 := by
      apply Nat.lt_of_not_le
      intro hbeyond
      have := place_eq horder (by omega) ((hbehind j hbeyond).trans hat)
      omega
    have hswapped : ∀ i, n ≤ i → order[i]? = (items.swap n j (by omega) hj)[i]? := by
      intro i hi
      by_cases e : i = n
      · subst e
        rw [swap_left, hat]
      · rw [swap_of_lt _ _ (by omega) (by omega)]
        exact hbehind i (by omega)
    obtain ⟨rest, hrest⟩ := ih _ (by rw [Array.size_swap]; omega) (nodup_swap hnodup)
      (hperm.trans (Array.swap_perm _ _).symm) hswapped
    exact ⟨.pick ⟨j, hle⟩ rest, hrest⟩

theorem list_injective {items : List α} (h : items.Nodup) {picks picks' : Picks items.length}
    (he : list items picks = list items picks') : picks = picks' :=
  arrange_injective picks picks' items.toArray (by simp) h (Array.toList_inj.mp he)

theorem list_surjective {items order : List α} (h : items.Nodup) (hperm : order.Perm items) :
    ∃ picks, list items picks = order := by
  have hbehind : ∀ i, items.length ≤ i → order.toArray[i]? = items.toArray[i]? := by
    intro i hi
    have hlength := hperm.length_eq
    rw [List.getElem?_toArray, List.getElem?_toArray, List.getElem?_eq_none hi, List.getElem?_eq_none (by omega)]
  obtain ⟨picks, hpicks⟩ := arrange_surjective items.toArray order.toArray (by simp) h
    (Array.perm_iff_toList_perm.mpr hperm) hbehind
  exact ⟨picks, by rw [list, hpicks]⟩

/-- A shuffle is fair. A seeded one gives what comes of its draws, each among all places up to its
    own; whatever the draws, this is an order of the items; of items that all differ, other draws
    give another order, and every order comes of some draws. -/
theorem fair {items : List α} (h : items.Nodup) :
    (∀ s : Seeded, ∃ (draw : (i : Nat) → Fin (i + 1)) (states : Nat → Twister),
      RandomSource.shuffle items s = (list items (.ofDraws draw items.length), s.next) ∧
      states items.length = s.generator ∧
      ∀ i, 0 < i → i < items.length → ((draw i).val, states i) = (states (i + 1)).below (i + 1)) ∧
    (∀ draw, (list items (.ofDraws draw items.length)).Perm items) ∧
    (∀ draw draw', list items (.ofDraws draw items.length) = list items (.ofDraws draw' items.length) →
      ∀ i < items.length, draw i = draw' i) ∧
    ∀ order : List α, order.Perm items → ∃ draw, list items (.ofDraws draw items.length) = order := by
  refine ⟨?_, ?_, ?_, ?_⟩
  · intro s
    obtain ⟨draw, states, hpicks, hdraws⟩ := Seeded.picksFrom_draws items.length s.generator
    refine ⟨draw, states, ?_, hdraws⟩
    rw [← hpicks]
    rfl
  · intro draw
    exact list_perm items _
  · intro draw draw' he
    exact Picks.ofDraws_eq_iff.mp (list_injective h he)
  · intro order hperm
    obtain ⟨picks, hpicks⟩ := list_surjective h hperm
    obtain ⟨draw, rfl⟩ := picks.exists_ofDraws
    exact ⟨draw, hpicks⟩

/-- Three items, and the two draws for each of their orders. -/
theorem fair_three : ["cup", "pen", "box"].Nodup ∧
    list ["cup", "pen", "box"] (.ofDraws (fun _ => 0) 3) = ["pen", "box", "cup"] ∧
    (∀ draw, list ["cup", "pen", "box"] (.ofDraws draw 3) = ["pen", "box", "cup"] → draw 1 = 0 ∧ draw 2 = 0) ∧
    ∃ draw, list ["cup", "pen", "box"] (.ofDraws draw 3) = ["box", "pen", "cup"] := by
  have hnodup : ["cup", "pen", "box"].Nodup := by decide
  have hpenFirst : list ["cup", "pen", "box"] (.ofDraws (fun _ => 0) 3) = ["pen", "box", "cup"] := by decide
  obtain ⟨-, -, hinjective, hsurjective⟩ := fair hnodup
  refine ⟨hnodup, hpenFirst, ?_, hsurjective _ (by decide)⟩
  intro draw he
  have hsame := hinjective draw _ (he.trans hpenFirst.symm)
  exact ⟨hsame 1 (by decide), hsame 2 (by decide)⟩

end Shuffle

end Errand
