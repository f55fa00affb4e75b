/-
  Errand.Proofs.Grammar.Merging — what merged rules give.

  Rules are merged one by one, the alternatives of a nonterminal put together and each kept
  once. Which rule an alternative came with and in which order does not matter for whether a
  nonterminal has it: merged rules give what either side gave (`Rules.gives_mergeAll`).
-/

import Errand.Proofs.Grammar.Names

namespace Errand

theorem Rule.mem_add {r : Rule} {more : List Text} {a : Text} :
    a ∈ (r.add more).alternatives ↔ a ∈ r.alternatives ∨ a ∈ more := by
  have hfold (known : List Text) : a ∈ more.foldl (fun known a => if known.contains a then known else known ++ [a]) known ↔
      a ∈ known ∨ a ∈ more := by
    induction more generalizing known with
    | nil => simp
    | cons b more ih =>
      rw [List.foldl_cons, ih]
      by_cases hb : known.contains b = true
      · rw [if_pos hb]
        have hb := List.contains_iff_mem.mp hb
        constructor
        · rintro (h | h)
          · exact Or.inl h
          · exact Or.inr (List.mem_cons_of_mem _ h)
        · rintro (h | h)
          · exact Or.inl h
          · rcases List.mem_cons.mp h with rfl | h
            · exact Or.inl hb
            · exact Or.inr h
      · rw [if_neg hb, List.mem_append, List.mem_singleton, List.mem_cons, or_assoc]
  exact hfold r.alternatives

namespace Rules

/-- A nonterminal has an alternative by one of the rules. -/
def Gives (rules : Rules) (name a : Text) : Prop := ∃ r ∈ rules, r.nonterminal = name ∧ a ∈ r.alternatives

variable {rules : Rules} {name a : Text}

theorem not_gives_nil : ¬Gives [] name a := fun ⟨_, hr, _⟩ => by cases hr

theorem gives_cons {rule : Rule} :
    Gives (rule :: rules) name a ↔ (rule.nonterminal = name ∧ a ∈ rule.alternatives) ∨ Gives rules name a := by
  simp only [Gives, List.mem_cons, or_and_right, exists_or, exists_eq_left]

theorem gives_append {more : Rules} : Gives (rules ++ more) name a ↔ Gives rules name a ∨ Gives more name a := by
  simp only [Gives, List.mem_append, or_and_right, exists_or]

/-- What merging makes of a rule that is there, if its nonterminal is the one of the rule merged. -/
theorem mem_merged {r rule : Rule} :
    a ∈ (if r.nonterminal = rule.nonterminal then r.add rule.alternatives else r).alternatives ↔
      a ∈ r.alternatives ∨ (r.nonterminal = rule.nonterminal ∧ a ∈ rule.alternatives) := by
  by_cases h : r.nonterminal = rule.nonterminal
  · rw [if_pos h, Rule.mem_add]
    simp [h]
  · rw [if_neg h]
    simp [h]

theorem nonterminal_merged {r rule : Rule} :
    (if r.nonterminal = rule.nonterminal then r.add rule.alternatives else r).nonterminal = r.nonterminal := by
  by_cases h : r.nonterminal = rule.nonterminal
  · rw [if_pos h]
    rfl
  · rw [if_neg h]

theorem gives_merge {rule : Rule} :
    Gives (rules.merge rule) name a ↔ Gives rules name a ∨ (rule.nonterminal = name ∧ a ∈ rule.alternatives) := by
  rw [merge]
  by_cases hempty : rule.alternatives.isEmpty = true
  · rw [if_pos hempty, List.isEmpty_iff.mp hempty]
    simp
  rw [if_neg hempty]
  by_cases hfound : (rules.find? rule.nonterminal).isSome = true
  · rw [if_pos hfound]
    constructor
    · rintro ⟨r', hr', hname, ha⟩
      obtain ⟨r, hr, rfl⟩ := List.mem_map.mp hr'
      rw [nonterminal_merged] at hname
      rcases mem_merged.mp ha with ha | ⟨hsame, ha⟩
      · exact Or.inl ⟨r, hr, hname, ha⟩
      · exact Or.inr ⟨hsame.symm.trans hname, ha⟩
    · rintro (⟨r, hr, hname, ha⟩ | ⟨hname, ha⟩)
      · exact ⟨_, List.mem_map_of_mem hr, nonterminal_merged.trans hname, mem_merged.mpr (Or.inl ha)⟩
      · obtain ⟨r, hr, hsame⟩ := List.mem_map.mp (isSome_find?_iff.mp hfound)
        exact ⟨_, List.mem_map_of_mem hr, nonterminal_merged.trans (hsame.trans hname),
          mem_merged.mpr (Or.inr ⟨hsame, ha⟩)⟩
  · rw [if_neg hfound, gives_append, gives_cons]
    simp [not_gives_nil]

/-- Merged rules give what the one or the other rules gave. -/
theorem gives_mergeAll {more : Rules} :
    Gives (more.foldl merge rules) name a ↔ Gives rules name a ∨ Gives more name a := by
  induction more generalizing rules with
  | nil => simp [not_gives_nil]
  | cons rule more ih => rw [List.foldl_cons, ih, gives_merge, gives_cons, or_assoc]

theorem gives_filter {p : Text → Bool} :
    Gives (rules.filter fun r => p r.nonterminal) name a ↔ p name = true ∧ Gives rules name a := by
  constructor
  · rintro ⟨r, hr, rfl, ha⟩
    obtain ⟨hr, hp⟩ := List.mem_filter.mp hr
    exact ⟨hp, r, hr, rfl, ha⟩
  · rintro ⟨hp, r, hr, rfl, ha⟩
    exact ⟨r, List.mem_filter.mpr ⟨hr, hp⟩, rfl, ha⟩

/-! ## The rule of a nonterminal -/

theorem of_find? {r : Rule} (h : rules.find? name = some r) : r ∈ rules ∧ r.nonterminal = name := by
  rw [find?] at h
  refine ⟨List.mem_of_find?_eq_some h, ?_⟩
  have hname := List.find?_some h
  exact beq_iff_eq.mp hname

/-- Of rules with different nonterminals, the one found gives everything. -/
theorem gives_iff_find? (h : (names rules).Nodup) :
    Gives rules name a ↔ ∃ r, rules.find? name = some r ∧ a ∈ r.alternatives := by
  constructor
  · rintro ⟨r, hr, hname, ha⟩
    have hmem : name ∈ names rules := List.mem_map.mpr ⟨r, hr, hname⟩
    obtain ⟨r', hr'⟩ := Option.isSome_iff_exists.mp (isSome_find?_iff.mpr hmem)
    obtain ⟨hmem', hname'⟩ := of_find? hr'
    have hsame := List.inj_on_of_nodup_map h hr hmem' (hname.trans hname'.symm)
    exact ⟨r', hr', hsame ▸ ha⟩
  · rintro ⟨r, hr, ha⟩
    obtain ⟨hmem, hname⟩ := of_find? hr
    exact ⟨r, hmem, hname, ha⟩

/-- Every rule has an alternative. -/
def Full (rules : Rules) : Prop := ∀ r ∈ rules, r.alternatives ≠ []

theorem Full.merge (h : Full rules) (rule : Rule) : Full (rules.merge rule) := by
  intro r' hr'
  rw [Rules.merge] at hr'
  by_cases hempty : rule.alternatives.isEmpty = true
  · rw [if_pos hempty] at hr'
    exact h r' hr'
  rw [if_neg hempty] at hr'
  by_cases hfound : (rules.find? rule.nonterminal).isSome = true
  · rw [if_pos hfound] at hr'
    obtain ⟨r, hr, rfl⟩ := List.mem_map.mp hr'
    obtain ⟨a, ha⟩ := List.exists_mem_of_ne_nil _ (h r hr)
    exact List.ne_nil_of_mem (mem_merged.mpr (Or.inl ha))
  · rw [if_neg hfound] at hr'
    rcases List.mem_append.mp hr' with hr' | hr'
    · exact h r' hr'
    · cases List.mem_singleton.mp hr'
      exact fun hnil => hempty (List.isEmpty_iff.mpr hnil)

/-- A nonterminal has a rule if it has an alternative. -/
theorem Full.isSome_find?_iff (h : Full rules) : (rules.find? name).isSome = true ↔ ∃ a, Gives rules name a := by
  rw [Rules.isSome_find?_iff]
  constructor
  · intro hname
    obtain ⟨r, hr, hname⟩ := List.mem_map.mp hname
    obtain ⟨a, ha⟩ := List.exists_mem_of_ne_nil _ (h r hr)
    exact ⟨a, r, hr, hname, ha⟩
  · rintro ⟨a, r, hr, rfl, -⟩
    exact List.mem_map_of_mem hr

end Rules

/-- Every rule of a grammar that is read has an alternative. -/
theorem Grammar.read_full {d : Disk} {log log' : Log} {path : Option Text} {t : Text} {c : Grammar.Contents}
    (h : (Grammar.read d path t).run log = (.ok c, log')) : Rules.Full c.rules :=
  Grammar.read_keeps (I := Rules.Full) (Grammar.kept_of_merge fun _ rule hr => hr.merge rule) (fun r hr => by cases hr) h

end Errand
