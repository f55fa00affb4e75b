/-
  Errand.Proofs.Grammar.Reading — the symbols of an alternative without groups.

  Expansion writes nonterminals into running text, and drawing reads them out of it
  again. A nonterminal goes as far as it can, so it is read as it was written only if
  no further character of a nonterminal stands behind it (`Separate`). An alternative
  has as many symbols after expansion as it had parts before exactly when what stands
  behind each of its groups is separate (`Respelled.length_symbols_eq_iff`).
-/

import Errand.Proofs.Grammar.Language
import Errand.Proofs.Grammar.Splicing
import Errand.Proofs.Text.Runs
import Mathlib.Data.List.TakeWhile

namespace Errand

/-! ## Where nonterminals end -/

/-- A text that does not lengthen a nonterminal in front of it. -/
def Separate (u : Text) : Prop := ∀ c ∈ u.head?, isRuleChar c = false

/-- A nonterminal, and nothing else. -/
def Named (name : Text) : Prop := ∃ w, name = .char '$' :: w ∧ w ≠ [] ∧ ∀ c ∈ w, isRuleChar c = true

theorem separate_nil : Separate [] := fun c hc => by cases hc

theorem Named.separate_append {name : Text} (h : Named name) (u : Text) : Separate (name ++ u) := by
  obtain ⟨w, rfl, -, -⟩ := h
  intro c hc
  cases hc
  decide

theorem Separate.append {u v : Text} (hu : Separate u) (hv : Separate v) : Separate (u ++ v) := by
  cases u with
  | nil => exact hv
  | cons c u => exact fun d hd => hu d hd

theorem isRuleChar_of_mem_decimal {n : Nat} {c : CodePoint} (h : c ∈ decimal n) : isRuleChar c = true := by
  obtain ⟨d, hd, rfl⟩ := List.mem_map.mp h
  have hdigit : d.isDigit = true := by
    refine Nat.isDigit_of_mem_toDigits (b := 10) (n := n) (by decide) (by decide) ?_
    rw [← Nat.toList_repr]
    exact hd
  simp only [Char.isDigit, Bool.and_eq_true, decide_eq_true_eq] at hdigit
  have hle : CodePoint.char '0' ≤ .char d ∧ CodePoint.char d ≤ .char '9' := hdigit
  simp [isRuleChar, hle.1, hle.2]

theorem Named.numbered {parent : Text} (h : Named parent) (index : Nat) : Named (numbered parent index) := by
  obtain ⟨w, rfl, hne, hw⟩ := h
  refine ⟨w ++ "_".text ++ decimal index, by simp [Errand.numbered], by simp [hne], fun c hc => ?_⟩
  rcases List.mem_append.mp hc with hc | hc
  · rcases List.mem_append.mp hc with hc | hc
    · exact hw c hc
    · rw [List.mem_singleton.mp hc]
      decide
  · exact isRuleChar_of_mem_decimal hc

/-! ## Symbols of texts put together -/

theorem takeWhile_ruleChars {w u : Text} (hw : ∀ c ∈ w, isRuleChar c = true) (hu : Separate u) :
    (w ++ u).takeWhile isRuleChar = w := Text.takeWhile_run hw hu

theorem dropWhile_ruleChars {w u : Text} (hw : ∀ c ∈ w, isRuleChar c = true) (hu : Separate u) :
    (w ++ u).dropWhile isRuleChar = u := Text.dropWhile_run hw hu

theorem separate_dropWhile (t : Text) : Separate (t.dropWhile isRuleChar) := by
  intro c hc
  have := List.head?_dropWhile_not isRuleChar t
  rw [Option.mem_def.mp hc] at this
  simpa using this

theorem symbols_nil : symbols [] = [] := by rw [symbols]

theorem symbols_named {name u : Text} (hn : Named name) (hu : Separate u) :
    symbols (name ++ u) = .nonterminal name :: symbols u := by
  obtain ⟨w, rfl, hne, hw⟩ := hn
  rw [List.cons_append, symbols, takeWhile_ruleChars hw hu, dropWhile_ruleChars hw hu]
  simp [hne]

theorem isRuleChar_of_mem_takeWhile {t : Text} {c : CodePoint} (h : c ∈ t.takeWhile isRuleChar) :
    isRuleChar c = true :=
  List.all_eq_true.mp List.all_takeWhile c h

/-- Texts are read one after the other if no nonterminal of the first one goes on in the
    second. -/
theorem symbols_append {t u : Text} (hu : Separate u) : symbols (t ++ u) = symbols t ++ symbols u := by
  fun_induction symbols t with
  | case1 => rfl
  | case2 c rest name h ih =>
    rw [List.cons_append, symbols, Text.takeWhile_append_of_head hu, Text.dropWhile_append_of_head hu, if_pos h, ih]
    rfl
  | case3 c rest name h ih =>
    rw [List.cons_append, symbols, Text.takeWhile_append_of_head hu, if_neg h, ih]
    rfl

/-- Without a dollar sign there is no nonterminal. -/
theorem symbols_plain {t : Text} (h : .char '$' ∉ t) : symbols t = t.map .terminal := by
  induction t with
  | nil => rw [symbols]; rfl
  | cons c t ih =>
    rw [List.mem_cons, not_or] at h
    rw [symbols, if_neg, ih h.2]
    · rfl
    · simp [Ne.symm h.1]

theorem symbols_ruleChars {w : Text} (hw : ∀ c ∈ w, isRuleChar c = true) (u : Text) :
    symbols (w ++ u) = w.map Symbol.terminal ++ symbols u := by
  induction w with
  | nil => rfl
  | cons c w ih =>
    have hc : c ≠ .char '$' := by
      rintro rfl
      exact absurd (hw _ List.mem_cons_self) (by decide)
    rw [List.cons_append, symbols, ih fun d hd => hw d (List.mem_cons_of_mem _ hd)]
    simp [hc]

theorem named_of_mem_symbols {t name : Text} (h : .nonterminal name ∈ symbols t) : Named name := by
  fun_induction symbols t with
  | case1 => cases h
  | case2 c rest w hc ih =>
    rcases List.mem_cons.mp h with e | h
    · cases e
      simp only [Bool.and_eq_true, decide_eq_true_eq] at hc
      obtain ⟨rfl, hw⟩ := hc
      exact ⟨w, rfl, by simpa using hw, fun _ => isRuleChar_of_mem_takeWhile⟩
    · exact ih h
  | case3 c rest w hc ih =>
    rcases List.mem_cons.mp h with e | h
    · cases e
    · exact ih h

/-! ## Alternatives after expansion -/

/-- What a symbol was before expansion: a nonterminal that is kept, or a group that
    became the nonterminal of a rule made. -/
inductive Reads (kept : Text → Prop) (made : Rules) : Part → Symbol → Prop
  | terminal (c : CodePoint) : Reads kept made (.terminal c) (.terminal c)
  | nonterminal {name : Text} : Named name → kept name →
      Reads kept made (.nonterminal name) (.nonterminal name)
  | group {inside name : Text} : Named name → ⟨name, alternativesIn inside⟩ ∈ made →
      Reads kept made (.group inside) (.nonterminal name)

theorem Reads.named {kept : Text → Prop} {made : Rules} {x : Part} {name : Text}
    (h : Reads kept made x (.nonterminal name)) : Named name := by
  cases h with
  | nonterminal hn _ => exact hn
  | group hn _ => exact hn

/-- No group has a character of a nonterminal right behind it. -/
def Cut.Apart (k : Cut) : Prop := ∀ g ∈ k.groups, Separate g.2

/-- The characters of nonterminals right behind groups. -/
def Cut.swallowed (groups : List (Text × Text)) : Text := groups.flatMap fun g => g.2.takeWhile isRuleChar

section
variable {parent : Text} {made : Rules} {groups : List (Text × Text)} {t : Text} {kept : Text → Prop}

theorem Spliced.separate (hp : Named parent) (h : Spliced parent made groups t) : Separate t := by
  cases h with
  | nil => exact separate_nil
  | cons _ _ =>
    rw [List.append_assoc]
    exact (hp.numbered _).separate_append _

theorem reads_symbols {u : Text} (hk : ∀ name, .nonterminal name ∈ symbols u → kept name) :
    List.Forall₂ (Reads kept made) ((symbols u).map Symbol.part) (symbols u) := by
  rw [List.forall₂_map_left_iff, List.forall₂_same]
  intro x hx
  cases x with
  | terminal c => exact .terminal c
  | nonterminal name => exact .nonterminal (named_of_mem_symbols hx) (hk name hx)

theorem Spliced.reads (hp : Named parent) (h : Spliced parent made groups t) (ha : ∀ g ∈ groups, Separate g.2)
    (hk : ∀ name, .nonterminal name ∈ Cut.groupParts groups → kept name) :
    List.Forall₂ (Reads kept made) (Cut.groupParts groups) (symbols t) := by
  induction h with
  | nil =>
    rw [symbols_nil]
    exact .nil
  | @cons index inside after t groups hm hs ih =>
    have hafter : Separate after := ha _ List.mem_cons_self
    have hparts : Cut.groupParts ((inside, after) :: groups) =
        .group inside :: ((symbols after).map Symbol.part ++ Cut.groupParts groups) := rfl
    rw [hparts] at hk ⊢
    rw [List.append_assoc, symbols_named (hp.numbered index) (hafter.append (hs.separate hp)),
      symbols_append (hs.separate hp)]
    refine .cons (.group (hp.numbered index) hm) (List.rel_append (reads_symbols fun name hn => ?_) (ih ?_ ?_))
    · exact hk name (List.mem_cons_of_mem _ (List.mem_append_left _ (List.mem_map_of_mem hn)))
    · exact fun g hg => ha g (List.mem_cons_of_mem _ hg)
    · exact fun name hn => hk name (List.mem_cons_of_mem _ (List.mem_append_right _ hn))

/-- A nonterminal takes up the characters of nonterminals that stand behind it. -/
theorem length_symbols_named {name u : Text} (after : Text) (hn : Named name) (hu : Separate u) :
    (symbols (name ++ after ++ u)).length + (after.takeWhile isRuleChar).length =
      (symbols after).length + (symbols u).length + 1 := by
  obtain ⟨w, rfl, hne, hw⟩ := hn
  have hlonger : Named (.char '$' :: w ++ after.takeWhile isRuleChar) := by
    refine ⟨w ++ after.takeWhile isRuleChar, rfl, by simp [hne], fun c hc => ?_⟩
    rcases List.mem_append.mp hc with hc | hc
    · exact hw c hc
    · exact isRuleChar_of_mem_takeWhile hc
  have hread := symbols_named hlonger ((separate_dropWhile after).append hu)
  have hafter := symbols_ruleChars (w := after.takeWhile isRuleChar) (fun _ => isRuleChar_of_mem_takeWhile)
    (after.dropWhile isRuleChar)
  rw [List.takeWhile_append_dropWhile] at hafter
  rw [← List.append_assoc, List.append_assoc _ (after.takeWhile isRuleChar),
    List.takeWhile_append_dropWhile] at hread
  rw [hread, hafter, symbols_append hu]
  simp only [List.length_cons, List.length_append, List.length_map]
  omega

theorem Spliced.length_symbols (hp : Named parent) (h : Spliced parent made groups t) :
    (symbols t).length + (Cut.swallowed groups).length = (Cut.groupParts groups).length := by
  induction h with
  | nil =>
    rw [symbols_nil]
    rfl
  | @cons index inside after t groups hm hs ih =>
    have hgroup := length_symbols_named after (hp.numbered index) (hs.separate hp)
    simp only [Cut.swallowed, Cut.groupParts, List.flatMap_cons,
      List.length_append, List.length_cons, List.length_map] at ih ⊢
    omega

end

namespace Respelled
variable {parent a b : Text} {made : Rules} {kept : Text → Prop}

/-- Read again, an alternative has the parts that it had, if its groups stand apart. -/
theorem reads (hp : Named parent) (h : Respelled parent made a b) (ha : (Cut.ofText a).Apart)
    (hk : ∀ name, .nonterminal name ∈ (Cut.ofText a).parts → kept name) :
    List.Forall₂ (Reads kept made) (Cut.ofText a).parts (symbols b) := by
  obtain ⟨t, ht, rfl⟩ := h
  rw [symbols_append (ht.separate hp)]
  refine List.rel_append (reads_symbols fun name hn => ?_) (ht.reads hp ha fun name hn => ?_)
  · exact hk name (List.mem_append_left _ (List.mem_map_of_mem hn))
  · exact hk name (List.mem_append_right _ hn)

/-- Each character of a nonterminal right behind a group is lost as a part. -/
theorem length_symbols (hp : Named parent) (h : Respelled parent made a b) :
    (symbols b).length + (Cut.swallowed (Cut.ofText a).groups).length = (Cut.ofText a).parts.length := by
  obtain ⟨t, ht, rfl⟩ := h
  have := ht.length_symbols hp
  rw [symbols_append (ht.separate hp), Cut.parts, List.length_append, List.length_append, List.length_map]
  omega

end Respelled

theorem Cut.swallowed_eq_nil_iff {k : Cut} : swallowed k.groups = [] ↔ k.Apart := by
  have hsep : ∀ u : Text, u.takeWhile isRuleChar = [] ↔ Separate u := by
    intro u
    cases u with
    | nil => exact ⟨fun _ => separate_nil, fun _ => rfl⟩
    | cons c u => simp [Separate, List.takeWhile_cons]
  simp only [swallowed, Apart, List.flatMap_eq_nil_iff, hsep]

theorem Respelled.length_symbols_eq_iff {parent a b : Text} {made : Rules} (hp : Named parent)
    (h : Respelled parent made a b) :
    (symbols b).length = (Cut.ofText a).parts.length ↔ (Cut.ofText a).Apart := by
  have := h.length_symbols hp
  rw [← Cut.swallowed_eq_nil_iff, ← List.length_eq_zero_iff]
  omega

end Errand
