/-
  Errand.Proofs.Grammar.Splicing — what expansion makes of rules.

  Expansion puts the rules it makes behind those that are there (`expanded_spec`): each
  rule keeps its nonterminal and the order of its alternatives, and in each
  alternative every group has become the nonterminal of a rule with the alternatives
  that the group lists (`Respelled`). The nonterminals it makes are new: no two rules
  have the same one.
-/

import Errand.Grammar.Expansion
import Mathlib.Data.List.Forall2
import Mathlib.Data.List.Nodup
import Mathlib.Data.List.Perm.Subperm

namespace Errand

theorem Rules.names_append (as bs : Rules) : names (as ++ bs) = names as ++ names bs := List.map_append

/-! ## New nonterminals are new -/

theorem decimal_injective : Function.Injective decimal := by
  intro m n h
  have hd : Nat.toDigits 10 m = Nat.toDigits 10 n := by
    rw [← Nat.toList_repr, ← Nat.toList_repr]
    exact List.map_injective_iff.mpr (fun a b e => CodePoint.char.inj e) h
  rw [← Nat.ofDigitChars_ten_toDigits (n := m), hd, Nat.ofDigitChars_ten_toDigits]

theorem numbered_injective (parent : Text) : Function.Injective (numbered parent) := by
  intro m n h
  exact decimal_injective (List.append_cancel_left h)

/-- The search ends at a free number, or after passing as many taken ones as it may. -/
theorem freeIndex_cases (parent : Text) (taken : List Text) (tries index : Nat) :
    numbered parent (freeIndex parent taken tries index) ∉ taken ∨
      freeIndex parent taken tries index = index + tries ∧
        ∀ j, index ≤ j → j < index + tries → numbered parent j ∈ taken := by
  induction tries generalizing index with
  | zero => exact Or.inr ⟨rfl, fun j h₁ h₂ => by omega⟩
  | succ tries ih =>
    rw [freeIndex]
    by_cases h : taken.contains (numbered parent index) = true
    · rw [if_pos h]
      rcases ih (index + 1) with hfree | ⟨he, hall⟩
      · exact Or.inl hfree
      · refine Or.inr ⟨by omega, fun j h₁ h₂ => ?_⟩
        by_cases e : j = index
        · rw [e]
          exact List.contains_iff_mem.mp h
        · exact hall j (by omega) (by omega)
    · rw [if_neg h]
      exact Or.inl fun hm => h (List.contains_iff_mem.mpr hm)

theorem freeIndex_free (parent : Text) (taken : List Text) (index : Nat) :
    numbered parent (freeIndex parent taken taken.length index) ∉ taken := by
  rcases freeIndex_cases parent taken taken.length index with h | ⟨he, hall⟩
  · exact h
  -- otherwise there would be more taken names than there are names
  · intro hm
    have hnodup : ((List.range' index (taken.length + 1)).map (numbered parent)).Nodup :=
      (List.nodup_range' 1).map (numbered_injective parent)
    have hsub : (List.range' index (taken.length + 1)).map (numbered parent) ⊆ taken := by
      intro name hn
      obtain ⟨j, hj, rfl⟩ := List.mem_map.mp hn
      rw [List.mem_range'_1] at hj
      by_cases e : j = index + taken.length
      · rw [e, ← he]
        exact hm
      · exact hall j hj.1 (by omega)
    have := (hnodup.subperm hsub).length_le
    rw [List.length_map, List.length_range'] at this
    omega

/-! ## One alternative -/

/-- A text made from groups: each one has become the nonterminal of one of the rules
    made, with what follows the group behind it. -/
inductive Spliced (parent : Text) (made : Rules) : List (Text × Text) → Text → Prop
  | nil : Spliced parent made [] []
  | cons {index : Nat} {inside after t : Text} {groups : List (Text × Text)} :
      ⟨numbered parent index, alternativesIn inside⟩ ∈ made → Spliced parent made groups t →
      Spliced parent made ((inside, after) :: groups) (numbered parent index ++ after ++ t)

/-- An alternative of a nonterminal and what expansion makes of it. -/
def Respelled (parent : Text) (made : Rules) (a b : Text) : Prop :=
  ∃ t, Spliced parent made (Cut.ofText a).groups t ∧ b = (Cut.ofText a).first ++ t

theorem Spliced.mono {parent t : Text} {made more : Rules} {groups : List (Text × Text)} (hsub : made ⊆ more)
    (h : Spliced parent made groups t) : Spliced parent more groups t := by
  induction h with
  | nil => exact .nil
  | cons hm _ ih => exact .cons (hsub hm) ih

theorem Respelled.mono {parent a b : Text} {made more : Rules} (hsub : made ⊆ more)
    (h : Respelled parent made a b) : Respelled parent more a b := by
  obtain ⟨t, ht, rfl⟩ := h
  exact ⟨t, ht.mono hsub, rfl⟩

theorem nameGroups_spliced (parent : Text) (taken : List Text) (index : Nat) (groups : List (Text × Text)) :
    Spliced parent (nameGroups parent taken index groups).2.1 groups (nameGroups parent taken index groups).1 := by
  induction groups generalizing taken index with
  | nil => exact .nil
  | cons g rest ih =>
    obtain ⟨inside, after⟩ := g
    exact .cons List.mem_cons_self ((ih _ _).mono (List.subset_cons_self _ _))

theorem nameGroups_made (parent : Text) (taken : List Text) (index : Nat) (groups : List (Text × Text)) :
    ∀ r ∈ (nameGroups parent taken index groups).2.1, ∃ i inside, r = ⟨numbered parent i, alternativesIn inside⟩ := by
  induction groups generalizing taken index with
  | nil => exact fun r hr => by cases hr
  | cons g rest ih =>
    obtain ⟨inside, after⟩ := g
    intro r hr
    rcases List.mem_cons.mp hr with rfl | hr
    · exact ⟨_, inside, rfl⟩
    · exact ih _ _ r hr

theorem nameGroups_nodup (parent : Text) {taken : List Text} (index : Nat) (groups : List (Text × Text))
    (h : taken.Nodup) : (Rules.names (nameGroups parent taken index groups).2.1 ++ taken).Nodup := by
  induction groups generalizing taken index with
  | nil => exact h
  | cons g rest ih =>
    have hfree := freeIndex_free parent taken index
    have hrest := ih (freeIndex parent taken taken.length index + 1) (List.nodup_cons.mpr ⟨hfree, h⟩)
    exact List.nodup_middle.mp hrest

/-! ## All alternatives of a rule -/

theorem expandAlternatives_respelled (parent : Text) (taken : List Text) (index : Nat) (alternatives : List Text) :
    List.Forall₂ (Respelled parent (expandAlternatives parent taken index alternatives).2) alternatives
      (expandAlternatives parent taken index alternatives).1 := by
  induction alternatives generalizing taken index with
  | nil => exact .nil
  | cons a rest ih =>
    refine .cons ⟨_, (nameGroups_spliced parent taken index _).mono ?_, rfl⟩
      ((ih _ _).imp fun a b h => h.mono ?_)
    · exact List.subset_append_left _ _
    · exact List.subset_append_right _ _

theorem expandAlternatives_made (parent : Text) (taken : List Text) (index : Nat) (alternatives : List Text) :
    ∀ r ∈ (expandAlternatives parent taken index alternatives).2,
      ∃ i inside, r = ⟨numbered parent i, alternativesIn inside⟩ := by
  induction alternatives generalizing taken index with
  | nil => exact fun r hr => by cases hr
  | cons a rest ih =>
    intro r hr
    rcases List.mem_append.mp hr with hr | hr
    · exact nameGroups_made parent taken index _ r hr
    · exact ih _ _ r hr

theorem expandAlternatives_numbered (parent : Text) (taken : List Text) (index : Nat) (alternatives : List Text) :
    ∀ r ∈ (expandAlternatives parent taken index alternatives).2, ∃ i, r.nonterminal = numbered parent i := by
  intro r hr
  obtain ⟨i, inside, rfl⟩ := expandAlternatives_made parent taken index alternatives r hr
  exact ⟨i, rfl⟩

theorem expandAlternatives_nodup (parent : Text) {taken : List Text} (index : Nat) (alternatives : List Text)
    (h : taken.Nodup) :
    (Rules.names (expandAlternatives parent taken index alternatives).2 ++ taken).Nodup := by
  induction alternatives generalizing taken index with
  | nil => exact h
  | cons a rest ih =>
    have hhere := nameGroups_nodup parent index (Cut.ofText a).groups h
    have hrest := ih (nameGroups parent taken index (Cut.ofText a).groups).2.2 hhere
    simp only [expandAlternatives, Rules.names_append]
    rw [← List.append_assoc] at hrest
    exact (List.perm_append_comm.append_right taken).nodup_iff.mp hrest

/-! ## All rules -/

/-- A rule and what expansion makes of it. -/
def Expanded (made : Rules) (r e : Rule) : Prop :=
  e.nonterminal = r.nonterminal ∧ List.Forall₂ (Respelled r.nonterminal made) r.alternatives e.alternatives

theorem Expanded.mono {made more : Rules} {r e : Rule} (hsub : made ⊆ more) (h : Expanded made r e) :
    Expanded more r e :=
  ⟨h.1, h.2.imp fun _ _ hab => hab.mono hsub⟩

namespace Rules

theorem expandFrom_spec (done todo : Rules) (h : (names (done ++ todo)).Nodup) :
    ∃ made later : Rules, expandFrom done todo = done ++ later ∧ (names (done ++ (todo ++ made))).Nodup ∧
      (∀ r ∈ made, ∃ parent i, r.nonterminal = numbered parent i) ∧
      List.Forall₂ (Expanded (todo ++ made)) (todo ++ made) later := by
  induction done, todo using expandFrom.induct with
  | case1 done => exact ⟨[], [], by rw [expandFrom, List.append_nil], by simpa using h, by simp, .nil⟩
  | case2 done r rest e ih =>
    have hnew : (names (done ++ [⟨r.nonterminal, e.1⟩] ++ (rest ++ e.2))).Nodup := by
      have hfresh := expandAlternatives_nodup r.nonterminal 0 r.alternatives h
      have hperm : (names e.2 ++ names (done ++ r :: rest)).Perm (names (done ++ r :: rest) ++ names e.2) :=
        List.perm_append_comm
      simpa [names] using hperm.nodup_iff.mp hfresh
    obtain ⟨made, later, he, hn, hnum, hall⟩ := ih hnew
    refine ⟨e.2 ++ made, ⟨r.nonterminal, e.1⟩ :: later, ?_, ?_, fun x hx => ?_, .cons ⟨rfl, ?_⟩ ?_⟩
    · rw [expandFrom, he, List.append_assoc]
      rfl
    · simpa [names] using hn
    · rcases List.mem_append.mp hx with hx | hx
      · exact ⟨r.nonterminal, expandAlternatives_numbered _ _ _ _ x hx⟩
      · exact hnum x hx
    · refine (expandAlternatives_respelled _ _ _ _).imp fun a b hab => hab.mono fun x hx => ?_
      exact List.mem_append_right _ (List.mem_append_left _ hx)
    · rw [List.append_assoc] at hall
      exact hall.imp fun x y hxy => hxy.mono (List.subset_cons_self _ _)

/-- What expansion makes of rules with different nonterminals: the rules that were
    there, and behind them new ones with numbered names. -/
theorem expanded_spec {rules : Rules} (h : (names rules).Nodup) :
    ∃ made : Rules, (names (rules ++ made)).Nodup ∧
      (∀ r ∈ made, ∃ parent i, r.nonterminal = numbered parent i) ∧
      List.Forall₂ (Expanded (rules ++ made)) (rules ++ made) rules.expanded := by
  obtain ⟨made, later, he, hn, hnum, hall⟩ := expandFrom_spec [] rules h
  rw [expanded, he]
  exact ⟨made, hn, hnum, hall⟩

end Rules

end Errand
