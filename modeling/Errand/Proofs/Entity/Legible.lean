/-
  Errand.Proofs.Entity.Legible — values that can be written.

  Only an integer of too many digits keeps a value from being written (`Value.Legible`). A
  graph is no obstacle: on the way down no node comes up twice, so there are never more
  nodes around than the graph has (`Graph.shownFrom_isSome`). What is inside a legible value
  is legible too, also where the outermost collection is a node (`Value.Legible.items`,
  `Value.Legible.entries`).
-/

import Errand.Value
import Mathlib.Data.List.Nodup
import Mathlib.Data.List.Perm.Subperm

namespace Errand

theorem mapM_isSome {α β : Type} {f : α → Option β} {l : List α} (h : ∀ a ∈ l, (f a).isSome = true) :
    (l.mapM f).isSome = true := by
  induction l with
  | nil => rfl
  | cons a l ih =>
    obtain ⟨ha, hl⟩ := List.forall_mem_cons.mp h
    obtain ⟨b, hb⟩ := Option.isSome_iff_exists.mp ha
    obtain ⟨bs, hbs⟩ := Option.isSome_iff_exists.mp (ih hl)
    rw [List.mapM_cons, hb, hbs]
    rfl

theorem Scalar.display?_isSome {s : Scalar} (h : s.shown?.isSome = true) : s.display?.isSome = true := by
  unfold display?
  split
  · rfl
  · rfl
  · rfl
  · exact h

/-! ## Graphs -/

/-- The scalars of a node can be written, and its members are nodes of the graph. -/
def GraphNode.Legible (g : Graph) : GraphNode → Prop
  | .scalar s => s.shown?.isSome = true
  | .list items => ∀ n ∈ items, n < g.size
  | .pairs items => ∀ p ∈ items, p.1 < g.size ∧ p.2 < g.size
  | .map entries => ∀ e ∈ entries, e.1.shown?.isSome = true ∧ e.2 < g.size
  | .set members => ∀ s ∈ members, s.shown?.isSome = true

def Graph.Legible (g : Graph) : Prop := ∀ (n : Nat) (node : GraphNode), g[n]? = some node → node.Legible g

/-- With nodes around that are all different and a depth for the others, each node can be
    written. -/
theorem Graph.shownFrom_isSome {g : Graph} (hg : g.Legible) {depth n : Nat} {around : List Nat} (hn : n < g.size)
    (hnodup : around.Nodup) (haround : ∀ m ∈ around, m < g.size) (hdepth : g.size < depth + around.length) :
    (g.shownFrom depth around n).isSome = true := by
  induction depth generalizing n around with
  | zero =>
    have hsub : around ⊆ List.range g.size := fun m hm => List.mem_range.mpr (haround m hm)
    have hle := (hnodup.subperm hsub).length_le
    rw [List.length_range] at hle
    omega
  | succ depth ih =>
    obtain ⟨node, hnode⟩ : ∃ node, g[n]? = some node := ⟨g[n], Array.getElem?_eq_getElem hn⟩
    have hlegible := hg n node hnode
    rw [shownFrom, hnode]
    by_cases hagain : around.contains n = true
    · cases node with
      | scalar s => exact hlegible
      | set members =>
        rw [Option.isSome_map]
        exact mapM_isSome hlegible
      | list _ | pairs _ | map _ => simp only [if_pos hagain, Option.isSome_some]
    · have hnew : (n :: around).Nodup := List.nodup_cons.mpr ⟨by simpa using hagain, hnodup⟩
      have hinside {m : Nat} (hm : m < g.size) : (g.shownFrom depth (n :: around) m).isSome = true := by
        refine ih hm hnew (List.forall_mem_cons.mpr ⟨hn, haround⟩) ?_
        rw [List.length_cons]
        omega
      cases node with
      | scalar s => exact hlegible
      | set members =>
        rw [Option.isSome_map]
        exact mapM_isSome hlegible
      | list items =>
        simp only [if_neg hagain, Option.isSome_map]
        exact mapM_isSome fun m hm => hinside (hlegible m hm)
      | pairs items =>
        simp only [if_neg hagain, Option.isSome_map]
        refine mapM_isSome fun p hp => ?_
        obtain ⟨a, ha⟩ := Option.isSome_iff_exists.mp (hinside (hlegible p hp).1)
        obtain ⟨b, hb⟩ := Option.isSome_iff_exists.mp (hinside (hlegible p hp).2)
        rw [ha, hb]
        rfl
      | map entries =>
        simp only [if_neg hagain, Option.isSome_map]
        refine mapM_isSome fun e he => ?_
        obtain ⟨a, ha⟩ := Option.isSome_iff_exists.mp (hlegible e he).1
        obtain ⟨b, hb⟩ := Option.isSome_iff_exists.mp (hinside (hlegible e he).2)
        rw [ha, hb]
        rfl

theorem Graph.shown?_isSome {g : Graph} (hg : g.Legible) {n : Nat} (hn : n < g.size) : (g.shown? n).isSome = true := by
  refine shownFrom_isSome hg hn List.nodup_nil (fun m hm => by cases hm) ?_
  rw [List.length_nil]
  omega

/-! ## Values -/

/-- No integer anywhere in a value has too many digits to be written. -/
inductive Value.Legible : Value → Prop
  | scalar {s : Scalar} : s.shown?.isSome = true → Legible (.scalar s)
  | list {items : List Value} : (∀ v ∈ items, Legible v) → Legible (.list items)
  | map {entries : List (Scalar × Value)} :
      (∀ e ∈ entries, e.1.shown?.isSome = true) → (∀ e ∈ entries, Legible e.2) → Legible (.map entries)
  | pair {a b : Value} : Legible a → Legible b → Legible (.pair a b)
  | set {members : List Scalar} : (∀ s ∈ members, s.shown?.isSome = true) → Legible (.set members)
  | node {g : Graph} {n : Nat} : g.Legible → n < g.size → Legible (.node g n)

namespace Value
variable {v : Value}

theorem legible_text (t : Text) : (Value.text t).Legible := .scalar rfl

theorem legible_null : Value.null.Legible := .scalar rfl

theorem Legible.shown?_isSome (h : v.Legible) : v.shown?.isSome = true := by
  induction h with
  | scalar h => exact h
  | @list items _ ih =>
    rw [shown?, Option.isSome_map]
    clear * - ih
    induction items with
    | nil => rfl
    | cons a items hitems =>
      obtain ⟨ha, hrest⟩ := List.forall_mem_cons.mp ih
      obtain ⟨x, hx⟩ := Option.isSome_iff_exists.mp ha
      obtain ⟨y, hy⟩ := Option.isSome_iff_exists.mp (hitems hrest)
      rw [shownItems, hx, hy]
      rfl
  | @map entries hkeys _ ih =>
    rw [shown?, Option.isSome_map]
    clear * - hkeys ih
    induction entries with
    | nil => rfl
    | cons e entries hentries =>
      obtain ⟨ha, hrest⟩ := List.forall_mem_cons.mp ih
      obtain ⟨hkey, hkeys⟩ := List.forall_mem_cons.mp hkeys
      obtain ⟨k, hk⟩ := Option.isSome_iff_exists.mp hkey
      obtain ⟨x, hx⟩ := Option.isSome_iff_exists.mp ha
      obtain ⟨y, hy⟩ := Option.isSome_iff_exists.mp (hentries hkeys hrest)
      rw [shownEntries, hk, hx, hy]
      rfl
  | pair _ _ iha ihb =>
    obtain ⟨x, hx⟩ := Option.isSome_iff_exists.mp iha
    obtain ⟨y, hy⟩ := Option.isSome_iff_exists.mp ihb
    rw [shown?, hx, hy]
    rfl
  | set h =>
    rw [shown?, Option.isSome_map]
    exact mapM_isSome h
  | node hg hn => exact Graph.shown?_isSome hg hn

theorem Legible.display?_isSome (h : v.Legible) : v.display?.isSome = true := by
  have hshown := h.shown?_isSome
  cases h with
  | scalar h => exact Scalar.display?_isSome h
  | list | map | pair | set | node => exact hshown

/-! ## What is inside -/

theorem legible_ofNode {g : Graph} (hg : g.Legible) {n : Nat} (hn : n < g.size) : (ofNode g n).Legible := by
  unfold ofNode
  split
  · rename_i s hs
    exact .scalar (hg n _ hs)
  · exact .node hg hn
  · exact legible_null

theorem Legible.items (h : v.Legible) {items : List Value} (ho : v.opened = .list items) :
    ∀ item ∈ items, item.Legible := by
  cases h with
  | list h =>
    cases ho
    exact h
  | scalar | map | pair | set => cases ho
  | @node g n hg hn =>
    rw [opened] at ho
    split at ho
    · cases ho
    · rename_i members hnode
      cases ho
      intro item hitem
      obtain ⟨m, hm, rfl⟩ := List.mem_map.mp hitem
      exact legible_ofNode hg (hg n _ hnode m hm)
    · rename_i pairs hnode
      cases ho
      intro item hitem
      obtain ⟨⟨a, b⟩, hp, rfl⟩ := List.mem_map.mp hitem
      obtain ⟨ha, hb⟩ := hg n _ hnode _ hp
      exact .pair (legible_ofNode hg ha) (legible_ofNode hg hb)
    · cases ho
    · cases ho
    · cases ho

theorem Legible.entries (h : v.Legible) {entries : List (Scalar × Value)} (ho : v.opened = .map entries) :
    ∀ e ∈ entries, e.1.shown?.isSome = true ∧ e.2.Legible := by
  cases h with
  | map hkeys hvalues =>
    cases ho
    exact fun e he => ⟨hkeys e he, hvalues e he⟩
  | scalar | list | pair | set => cases ho
  | @node g n hg hn =>
    rw [opened] at ho
    split at ho
    · cases ho
    · cases ho
    · cases ho
    · rename_i members hnode
      cases ho
      intro e he
      obtain ⟨⟨k, m⟩, hm, rfl⟩ := List.mem_map.mp he
      obtain ⟨hk, hlt⟩ := hg n _ hnode _ hm
      exact ⟨hk, legible_ofNode hg hlt⟩
    · cases ho
    · cases ho

theorem mem_of_lookup? {key : Text} {entries : List (Scalar × Value)} (h : lookup? key entries = some v) :
    (.text key, v) ∈ entries := by
  fun_induction lookup? key entries with
  | case1 => cases h
  | case2 u rest =>
    cases h
    exact List.mem_cons_self
  | case3 k u rest _ ih => exact List.mem_cons_of_mem _ (ih h)
  | case4 e rest _ ih => exact List.mem_cons_of_mem _ (ih h)

end Value

end Errand
