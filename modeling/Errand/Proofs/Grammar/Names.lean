/-
  Errand.Proofs.Grammar.Names — a grammar has one rule for each nonterminal.

  Rules come into a grammar by merging: one for a nonterminal that has a rule already gives its
  alternatives to that one, any other is put behind all rules (`Rules.names_merge`). What
  is read from a text and from the files that it takes in is merged and nothing else, so
  in the end no nonterminal has two rules (`Grammar.read_distinct`).

  What one line does, if it goes well, is said once for all such proofs: its comment takes in
  at most one file (`readLine_cases`), and that ends in one of four ways (`TakenIn`).
-/

import Errand.Grammar.Loading
import Errand.Proofs.Run
import Mathlib.Data.List.Nodup

namespace Errand

namespace Rules

theorem isSome_find?_iff {rules : Rules} {name : Text} :
    (rules.find? name).isSome = true ↔ name ∈ names rules := by
  rw [find?, List.find?_isSome, names, List.mem_map]
  constructor
  · rintro ⟨r, hr, he⟩
    exact ⟨r, hr, beq_iff_eq.mp he⟩
  · rintro ⟨r, hr, rfl⟩
    exact ⟨r, hr, beq_self_eq_true _⟩

/-- Merging adds a nonterminal only if it has alternatives and is new. -/
theorem names_merge (rules : Rules) (rule : Rule) :
    names (rules.merge rule) =
      if rule.alternatives = [] ∨ rule.nonterminal ∈ names rules then names rules
      else names rules ++ [rule.nonterminal] := by
  rw [merge]
  by_cases hempty : rule.alternatives = []
  · rw [if_pos (List.isEmpty_iff.mpr hempty), if_pos (Or.inl hempty)]
  · rw [if_neg (mt List.isEmpty_iff.mp hempty)]
    by_cases hm : rule.nonterminal ∈ names rules
    · rw [if_pos (isSome_find?_iff.mpr hm), if_pos (Or.inr hm), names, List.map_map]
      refine List.map_congr_left fun r _ => ?_
      show (if r.nonterminal = rule.nonterminal then r.add rule.alternatives else r).nonterminal = r.nonterminal
      by_cases h : r.nonterminal = rule.nonterminal
      · rw [if_pos h]
        rfl
      · rw [if_neg h]
    · rw [if_neg (mt isSome_find?_iff.mp hm), if_neg (not_or.mpr ⟨hempty, hm⟩), names, List.map_append]
      rfl

theorem merge_distinct {rules : Rules} (h : (names rules).Nodup) (rule : Rule) :
    (names (rules.merge rule)).Nodup := by
  rw [names_merge]
  by_cases hold : rule.alternatives = [] ∨ rule.nonterminal ∈ names rules
  · rwa [if_pos hold]
  · rw [if_neg hold]
    rw [← List.concat_eq_append]
    exact h.concat (not_or.mp hold).2

/-- What merging rules of a kind keeps, merging many of them keeps. -/
theorem mergeAll_keeps {I : Rules → Prop} {Q : Rule → Prop}
    (hmerge : ∀ rules rule, I rules → Q rule → I (rules.merge rule)) {rules more : Rules} (h : I rules)
    (hmore : ∀ rule ∈ more, Q rule) : I (more.foldl merge rules) := by
  induction more generalizing rules with
  | nil => exact h
  | cons rule more ih =>
    obtain ⟨hrule, hrest⟩ := List.forall_mem_cons.mp hmore
    exact ih (hmerge rules rule h hrule) hrest

end Rules

namespace Grammar

/-- The rules of the contents have a property. -/
def Contents.Obey (I : Rules → Prop) (c : Contents) : Prop := I c.rules

/-- A property of rules that reading keeps: those that are in, those that lines state and those
    that placeholders come as are of one kind, and merging a rule of that kind keeps it. -/
structure Kept (I : Rules → Prop) (Q : Rule → Prop) : Prop where
  member : ∀ rules, I rules → ∀ rule ∈ rules, Q rule
  merge : ∀ rules rule, I rules → Q rule → I (rules.merge rule)
  line : ∀ code rule, Rule.read? code = some rule → Q rule
  mount : ∀ comment i, Directive.inclusion? comment = some i → ∀ name ∈ i.mount, ∀ a, Q ⟨name, [a]⟩

/-- A property of which it does not matter what is merged. -/
theorem kept_of_merge {I : Rules → Prop} (h : ∀ rules rule, I rules → I (rules.merge rule)) : Kept I fun _ => True :=
  ⟨fun _ _ _ _ => trivial, fun rules rule hr _ => h rules rule hr, fun _ _ _ => trivial, fun _ _ _ _ _ _ => trivial⟩

/-! ## What an inclusion does -/

section
variable {d : Disk} {readFile : Text → Reading Contents} {loading : List Text} {i : Directive.Inclusion} {path : Text}
  {rules rules' : Rules} {log log' : Log}

/-- The reasons that there can be for not mounting the file at a path. -/
def reasonsFor (path : Text) : List Text :=
  ["File ".text ++ path ++ " not found".text, "Cannot load grammar file ".text ++ path,
    "Importing ".text ++ path ++ " under a non-terminal is not implemented".text]

/-- The warning about a file that is not mounted. -/
def mountWarning (reason nonterminal : Text) : LogEntry :=
  ⟨.warning, reason ++ "; inserting placeholder into ".text ++ nonterminal⟩

/-- What an inclusion takes over of the rules of a file. -/
def overtaken (i : Directive.Inclusion) (rules : Rules) : Rules :=
  if i.isImport then rules.filter (·.nonterminal != startNonterminal) else rules

/-- The rules and the log after an inclusion, if it goes well: the file at the path is being read, it is
    to be mounted, or else it is merged, or it is not there. -/
inductive TakenIn (d : Disk) (readFile : Text → Reading Contents) (loading : List Text) (i : Directive.Inclusion)
    (path : Text) (rules : Rules) (log : Log) : Rules → Log → Prop
  | loading : Path.absolute d.current path ∈ loading → TakenIn d readFile loading i path rules log rules log
  | mounted {nonterminal reason : Text} {log₁ : Log} : Path.absolute d.current path ∉ loading → i.isImport = true →
      nonterminal ∈ i.mount → reason ∈ reasonsFor path →
      TakenIn d readFile loading i path rules log (rules.merge ⟨nonterminal, [placeholder reason]⟩)
        (log₁ ++ [mountWarning reason nonterminal])
  | merged {c : Contents} {log₁ : Log} : Path.absolute d.current path ∉ loading → (i.isImport = true → i.mount = none) →
      d.isFile (Path.absolute d.current path) = true → (readFile (Path.absolute d.current path)).run log = (.ok c, log₁) →
      TakenIn d readFile loading i path rules log ((overtaken i c.rules).foldl Rules.merge rules) log₁
  | missing : Path.absolute d.current path ∉ loading → (i.isImport = true → i.mount = none) →
      d.isFile (Path.absolute d.current path) = false → TakenIn d readFile loading i path rules log rules
        (log ++ [⟨.warning, "Grammar ".text ++ i.word ++ ": ".text ++ path ++ " not found, skipped".text⟩])

theorem takenIn_of_run (h : (takeIn d readFile loading i path rules).run log = (.ok rules', log')) :
    TakenIn d readFile loading i path rules log rules' log' := by
  rw [takeIn] at h
  by_cases hloading : loading.contains (Path.absolute d.current path) = true
  · rw [if_pos hloading] at h
    obtain ⟨rfl, rfl⟩ := run_pure_eq_ok.mp h
    exact .loading (List.contains_iff_mem.mp hloading)
  rw [if_neg hloading] at h
  have hnew : Path.absolute d.current path ∉ loading := fun hmem => hloading (List.contains_iff_mem.mpr hmem)
  split at h
  · rename_i nonterminal himport hmount
    -- whatever the reason, the placeholder is merged
    have hend : ∀ reason ∈ reasonsFor path, ∀ log₁, (do
        Log.warn (reason ++ "; inserting placeholder into ".text ++ nonterminal)
        return rules.merge ⟨nonterminal, [placeholder reason]⟩ : Reading Rules).run log₁ = (.ok rules', log') →
        TakenIn d readFile loading i path rules log rules' log' := by
      intro reason hreason log₁ h
      cases h
      exact .mounted hnew himport hmount hreason
    by_cases hfile : d.isFile (Path.absolute d.current path) = true
    · rw [if_pos hfile] at h
      obtain ⟨c, log₁, -, h⟩ := run_bind_eq_ok.mp h
      by_cases hstart : (c.rules.find? startNonterminal).isSome = true
      · rw [if_pos hstart] at h
        exact hend _ (by simp [reasonsFor]) _ h
      · rw [if_neg hstart] at h
        exact hend _ (by simp [reasonsFor]) _ h
    · rw [if_neg hfile] at h
      exact hend _ (by simp [reasonsFor]) _ h
  · rename_i hplain
    have hplain : i.isImport = true → i.mount = none := by
      intro himport
      rcases hmount : i.mount with _ | nonterminal
      · rfl
      · exact (hplain nonterminal himport hmount).elim
    by_cases hfile : d.isFile (Path.absolute d.current path) = true
    · rw [if_pos hfile] at h
      obtain ⟨c, log₁, hc, h⟩ := run_bind_eq_ok.mp h
      obtain ⟨rfl, rfl⟩ := run_pure_eq_ok.mp h
      exact .merged hnew hplain hfile hc
    · rw [if_neg hfile] at h
      cases h
      exact .missing hnew hplain (Bool.eq_false_iff.mpr hfile)

/-- The step of `readLines` for one line. -/
def readLine (d : Disk) (readFile : Text → Reading Contents) (loading : List Text) (base : Text) (c : Contents)
    (line : GrammarLine) : Reading Contents := do
  let c ← match line.comment with
    | none => pure c
    | some comment =>
      let c := c.declare comment
      match Directive.inclusion? comment with
      | none => pure c
      | some i =>
        let rules ← takeIn d readFile loading i (Path.join base i.target) c.rules
        pure { c with rules }
  return c.state line.code

/-- The folder that the targets in a text are seen from. -/
def baseFor (d : Disk) (path : Option Text) : Text :=
  match path with
  | some p => Path.folder p
  | none => d.current

/-- A text is read line by line. -/
theorem readLines_eq (readFile : List Text → Text → Reading Contents) (path : Option Text) (t : Text) :
    readLines d readFile loading path t =
      let loading := (path.map (Path.absolute d.current)).toList ++ loading
      (GrammarLine.ofText t).foldlM (readLine d (readFile loading) loading (baseFor d path)) Contents.empty := rfl

/-- The code of a line counts after what its comment takes in. -/
theorem readLine_cases {base : Text} {line : GrammarLine} {c c' : Contents}
    (h : (readLine d readFile loading base c line).run log = (.ok c', log')) : ∃ c₁ : Contents,
      c' = c₁.state line.code ∧ ((c₁.rules = c.rules ∧ log' = log) ∨ ∃ comment i, Directive.inclusion? comment = some i ∧
        TakenIn d readFile loading i (Path.join base i.target) c.rules log c₁.rules log') := by
  rw [readLine] at h
  rcases hcomment : line.comment with _ | comment
  · rw [hcomment] at h
    obtain ⟨rfl, rfl⟩ := run_pure_eq_ok.mp h
    exact ⟨c, rfl, Or.inl ⟨rfl, rfl⟩⟩
  · rw [hcomment] at h
    dsimp only at h
    rcases hi : Directive.inclusion? comment with _ | i
    · rw [hi] at h
      obtain ⟨rfl, rfl⟩ := run_pure_eq_ok.mp h
      exact ⟨c.declare comment, rfl, Or.inl ⟨rfl, rfl⟩⟩
    · rw [hi] at h
      obtain ⟨rules, log₁, hrules, h⟩ := run_bind_eq_ok.mp h
      obtain ⟨rfl, rfl⟩ := run_pure_eq_ok.mp h
      exact ⟨{ c.declare comment with rules }, rfl, Or.inr ⟨comment, i, hi, takenIn_of_run hrules⟩⟩

end

section
variable {d : Disk} {log log' : Log} {I : Rules → Prop} {Q : Rule → Prop} (hk : Kept I Q)
include hk

theorem Contents.Obey.state {c : Contents} (h : c.Obey I) (code : Text) : (c.state code).Obey I := by
  rw [Contents.state]
  rcases hread : Rule.read? code with _ | rule
  · exact h
  · exact hk.merge c.rules rule h (hk.line code rule hread)

/-- An inclusion merges rules into those there are. -/
theorem TakenIn.keeps {readFile : Text → Reading Contents} {loading : List Text} {i : Directive.Inclusion}
    {path : Text} {rules rules' : Rules} (h : TakenIn d readFile loading i path rules log rules' log')
    (hmount : ∀ name ∈ i.mount, ∀ a, Q ⟨name, [a]⟩)
    (hfile : ∀ full log c log', (readFile full).run log = (.ok c, log') → c.Obey I) (hr : I rules) : I rules' := by
  cases h with
  | loading | missing => exact hr
  | mounted _ _ hname _ => exact hk.merge _ _ hr (hmount _ hname _)
  | @merged c _ _ _ _ hc =>
    have hrules := hk.member c.rules (hfile _ _ _ _ hc)
    refine Rules.mergeAll_keeps hk.merge hr fun rule hrule => hrules rule ?_
    rw [overtaken] at hrule
    split at hrule
    · exact (List.mem_filter.mp hrule).1
    · exact hrule

theorem readLines_keeps (hnil : I []) {readFile : List Text → Text → Reading Contents}
    (hfile : ∀ loading full log c log', (readFile loading full).run log = (.ok c, log') → c.Obey I)
    {loading : List Text} {path : Option Text} {t : Text} {c : Contents}
    (h : (readLines d readFile loading path t).run log = (.ok c, log')) : c.Obey I := by
  rw [readLines_eq] at h
  refine run_foldlM_invariant (fun c line log c' log' hc h => ?_) h hnil
  obtain ⟨c₁, rfl, ⟨hsame, -⟩ | ⟨comment, i, hi, htaken⟩⟩ := readLine_cases h
  · exact Contents.Obey.state hk (show I c₁.rules from hsame ▸ hc) line.code
  · exact Contents.Obey.state hk (htaken.keeps hk (hk.mount comment i hi) (hfile _) hc) line.code

theorem readWithin_keeps (hnil : I []) {depth : Nat} {loading : List Text} {path : Option Text} {t : Text} {c : Contents}
    (h : (readWithin d depth loading path t).run log = (.ok c, log')) : c.Obey I := by
  induction depth generalizing loading path t c log log' with
  | zero =>
    refine readLines_keeps hk hnil (fun loading full log c log' hc => ?_) h
    obtain ⟨rfl, -⟩ := run_pure_eq_ok.mp hc
    exact hnil
  | succ depth ih =>
    refine readLines_keeps hk hnil (fun loading full log c log' hc => ?_) h
    obtain ⟨u, log₁, -, hc⟩ := run_bind_eq_ok.mp hc
    exact ih hc

/-- What is true of no rules and kept by reading is true of all that is read. -/
theorem read_keeps (hnil : I []) {path : Option Text} {t : Text} {c : Contents}
    (h : (read d path t).run log = (.ok c, log')) : c.Obey I :=
  readWithin_keeps hk hnil h

end

/-- What is read has one rule for each nonterminal. -/
def Contents.Distinct (c : Contents) : Prop := (Rules.names c.rules).Nodup

/-- Every grammar that is read has one rule for each nonterminal, and expansion relies on it. -/
theorem read_distinct {d : Disk} {log log' : Log} {path : Option Text} {t : Text} {c : Contents}
    (h : (read d path t).run log = (.ok c, log')) : c.Distinct :=
  read_keeps (I := fun rules => (Rules.names rules).Nodup)
    (kept_of_merge fun _ rule hr => Rules.merge_distinct hr rule) List.nodup_nil h

end Grammar

end Errand
