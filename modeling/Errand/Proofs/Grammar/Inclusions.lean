/-
  Errand.Proofs.Grammar.Inclusions — what is read from files that include each other.

  A file that is being read is not read once more, so what a file adds depends on the way that
  led to it: of two files that include each other, the one read last adds nothing of the other.
  Nothing is lost by that. Whatever can be reached through a file that is left out can be reached
  from the place where it is being read, by a way that does not come back to it
  (`avoiding_iff`). So what is read at a file is what is written in the files that can be reached
  from it past those being read (`Origin.reading_ends`), and at the beginning that is all that
  can be reached (`read_reachable`).

  An import leaves out the start rule of a file. With regard to the start nonterminal it is
  then as if it were not there, with regard to any other it is as good as a loading
  (`Carries`): one argument serves both.

  Among the files being read no path is there twice, so the bound on their number is never
  come to (`readWithin_of_le`).
-/

import Errand.Proofs.Files.Paths
import Errand.Proofs.Grammar.Merging
import Mathlib.Logic.Relation

namespace Errand

/-! ## Ways past some places -/

section
variable {α : Type} {R : α → α → Prop} {avoided : List α} {x y : α}

/-- To go from one place to the next, but not to those avoided. -/
def Avoiding (R : α → α → Prop) (avoided : List α) : α → α → Prop :=
  Relation.ReflTransGen fun x y => R x y ∧ y ∉ avoided

theorem avoiding_nil : Avoiding R [] x y ↔ Relation.ReflTransGen R x y := by
  have hall : (fun x y => R x y ∧ y ∉ ([] : List α)) = R := by
    funext x y
    exact propext (and_iff_left List.not_mem_nil)
  rw [Avoiding, hall]

/-- A way need not come back to where it begins. -/
theorem avoiding_iff : Avoiding R avoided x y ↔
    y = x ∨ ∃ z, R x z ∧ z ∉ x :: avoided ∧ Avoiding R (x :: avoided) z y := by
  constructor
  · intro h
    induction h with
    | refl => exact Or.inl rfl
    | @tail y y' _ hstep ih =>
      by_cases hback : y' = x
      · exact Or.inl hback
      have hnew : y' ∉ x :: avoided := by
        rw [List.mem_cons, not_or]
        exact ⟨hback, hstep.2⟩
      rcases ih with rfl | ⟨z, hz, hznew, hway⟩
      · exact Or.inr ⟨y', hstep.1, hnew, .refl⟩
      · exact Or.inr ⟨z, hz, hznew, hway.tail ⟨hstep.1, hnew⟩⟩
  · rintro (rfl | ⟨z, hz, hnew, hway⟩)
    · exact .refl
    · have hweaker : (fun x' y => R x' y ∧ y ∉ x :: avoided) ≤ fun x' y => R x' y ∧ y ∉ avoided :=
        fun _ _ hstep => ⟨hstep.1, fun hmem => hstep.2 (List.mem_cons_of_mem _ hmem)⟩
      refine .head ⟨hz, fun hmem => hnew (List.mem_cons_of_mem _ hmem)⟩ ?_
      exact Relation.ReflTransGen.mono hweaker _ _ hway

end

namespace Grammar

/-! ## What lines add -/

/-- The rules that lines state themselves. -/
def statedIn (lines : List GrammarLine) : Rules := lines.filterMap fun line => Rule.read? line.code

/-- The inclusions that lines ask for. -/
def inclusionsIn (lines : List GrammarLine) : List Directive.Inclusion :=
  lines.filterMap fun line => line.comment.bind Directive.inclusion?

/-- The rules that a text states itself. -/
def stated (t : Text) : Rules := statedIn (GrammarLine.ofText t)

/-- The inclusions that a text asks for. -/
def inclusions (t : Text) : List Directive.Inclusion := inclusionsIn (GrammarLine.ofText t)

/-- An inclusion takes over what a file gives a nonterminal. An import leaves out the start rule. -/
def Carries (i : Directive.Inclusion) (name : Text) : Prop := i.isImport = true → name ≠ startNonterminal

section
variable {d : Disk} {loading : List Text} {base name a : Text} {offered : Text → Text → Text → Prop}

theorem gives_overtaken {i : Directive.Inclusion} {rules : Rules} :
    (overtaken i rules).Gives name a ↔ Carries i name ∧ rules.Gives name a := by
  rw [overtaken]
  by_cases himport : i.isImport = true
  · rw [if_pos himport, Rules.gives_filter (p := (· != startNonterminal))]
    simp [Carries, himport]
  · rw [if_neg himport]
    simp [Carries, himport]

theorem Contents.gives_state {c : Contents} {code : Text} :
    (c.state code).rules.Gives name a ↔ c.rules.Gives name a ∨ Rules.Gives (Rule.read? code).toList name a := by
  rw [state]
  rcases Rule.read? code with _ | rule
  · simp [Rules.not_gives_nil]
  · rw [Rules.gives_merge, Option.toList_some, Rules.gives_cons]
    simp [Rules.not_gives_nil]

/-- What an inclusion takes over of the file at a path, if `offered` is what files give. -/
def TakesOver (d : Disk) (loading : List Text) (offered : Text → Text → Text → Prop) (i : Directive.Inclusion)
    (path name a : Text) : Prop :=
  path ∉ loading ∧ d.isFile path = true ∧ Carries i name ∧ offered path name a

/-- The contents give what is offered, and nothing else. -/
def Contents.GivesJust (offered : Text → Text → Prop) (c : Contents) : Prop :=
  ∀ name a, c.rules.Gives name a ↔ offered name a

theorem takeIn_ends {readFile : Text → Reading Contents} {i : Directive.Inclusion} {path : Text} {rules : Rules}
    (hplain : i.isImport = true → i.mount = none)
    (hread : Path.absolute d.current path ∉ loading → d.isFile (Path.absolute d.current path) = true →
      Ends (readFile (Path.absolute d.current path)) (Contents.GivesJust (offered (Path.absolute d.current path)))) :
    Ends (takeIn d readFile loading i path rules) fun rules' => ∀ name a, rules'.Gives name a ↔
      rules.Gives name a ∨ TakesOver d loading offered i (Path.absolute d.current path) name a := by
  rw [takeIn]
  generalize Path.absolute d.current path = full at hread
  by_cases hloading : loading.contains full = true
  · rw [if_pos hloading]
    have hmem := List.contains_iff_mem.mp hloading
    refine ends_pure fun name a => ?_
    simp [TakesOver, hmem]
  rw [if_neg hloading]
  have hnew : full ∉ loading := fun hmem => hloading (List.contains_iff_mem.mpr hmem)
  split
  · rename_i himport hmount
    rw [hplain himport] at hmount
    cases hmount
  · by_cases hfile : d.isFile full = true
    · rw [if_pos hfile]
      refine (hread hnew hfile).bind fun c hc => ends_pure fun name a => ?_
      have htaken := gives_overtaken.trans (and_congr_right fun _ : Carries i name => hc name a)
      rw [overtaken] at htaken
      rw [Rules.gives_mergeAll, htaken]
      simp [TakesOver, hnew, hfile]
    · rw [if_neg hfile]
      refine (Ends.bind (P := fun _ => True) (fun s => ⟨(), _, rfl, trivial⟩) fun _ _ => ends_pure fun name a => ?_)
      simp [TakesOver, hfile]

/-- What lines add: the rules that they state, and what they take over. -/
def Adds (d : Disk) (loading : List Text) (base : Text) (offered : Text → Text → Text → Prop)
    (lines : List GrammarLine) (name a : Text) : Prop :=
  Rules.Gives (statedIn lines) name a ∨
    ∃ i ∈ inclusionsIn lines, TakesOver d loading offered i (Path.absolute d.current (Path.join base i.target)) name a

theorem adds_append {lines more : List GrammarLine} :
    Adds d loading base offered (lines ++ more) name a ↔
      Adds d loading base offered lines name a ∨ Adds d loading base offered more name a := by
  simp only [Adds, statedIn, inclusionsIn, List.filterMap_append, Rules.gives_append, List.mem_append, or_and_right,
    exists_or]
  exact or_or_or_comm

theorem statedIn_singleton (line : GrammarLine) : statedIn [line] = (Rule.read? line.code).toList := by
  rw [statedIn, List.filterMap_cons, List.filterMap_nil]
  rcases Rule.read? line.code with _ | rule
  · rfl
  · rfl

/-- The code of a line counts after what its comment takes in. -/
theorem Contents.GivesJust.line {passed : List GrammarLine} {line : GrammarLine} {c c' : Contents}
    (hc : c.GivesJust (Adds d loading base offered passed))
    (hc' : ∀ name a, c'.rules.Gives name a ↔ c.rules.Gives name a ∨ ∃ i ∈ inclusionsIn [line],
      TakesOver d loading offered i (Path.absolute d.current (Path.join base i.target)) name a) :
    (c'.state line.code).GivesJust (Adds d loading base offered (passed ++ [line])) := by
  intro name a
  rw [gives_state, hc' name a, hc name a, adds_append, or_assoc, ← statedIn_singleton, Or.comm (a := ∃ _, _)]
  rfl

/-- The text at a path is read, if the files that it includes can be. -/
theorem readLines_ends {readFile : List Text → Text → Reading Contents} {path t : Text}
    (hplain : ∀ i ∈ inclusions t, i.isImport = true → i.mount = none)
    (hread : ∀ i ∈ inclusions t, ∀ full, full = Path.absolute d.current (Path.join (Path.folder path) i.target) →
      full ∉ Path.absolute d.current path :: loading → d.isFile full = true →
      Ends (readFile (Path.absolute d.current path :: loading) full) (Contents.GivesJust (offered full))) :
    Ends (readLines d readFile loading (some path) t) (Contents.GivesJust
      (Adds d (Path.absolute d.current path :: loading) (Path.folder path) offered (GrammarLine.ofText t))) := by
  rw [readLines]
  simp only [Option.map_some, Option.toList_some, List.singleton_append]
  generalize Path.absolute d.current path :: loading = loading at hread
  generalize Path.folder path = base at hread
  rw [inclusions] at hplain hread
  generalize GrammarLine.ofText t = lines at hplain hread
  refine ends_foldlM (fun passed => Contents.GivesJust (Adds d loading base offered passed))
    (fun passed c hc line hline => ?_) ?_
  · rcases hcomment : line.comment with _ | comment
    · refine ends_pure (hc.line fun name a => ?_)
      simp [inclusionsIn, hcomment]
    dsimp only
    rcases hi : Directive.inclusion? comment with _ | i
    · refine ends_pure (hc.line fun name a => ?_)
      simp [inclusionsIn, hcomment, hi, Contents.declare]
    · have hmem : i ∈ inclusionsIn lines := List.mem_filterMap.mpr ⟨line, hline, by rw [hcomment]; exact hi⟩
      refine (takeIn_ends (hplain i hmem) (hread i hmem _ rfl)).bind fun rules hrules => ?_
      refine ends_pure (hc.line fun name a => ?_)
      simp [inclusionsIn, hcomment, hi, hrules name a, Contents.declare]
  · intro name a
    simp [Adds, statedIn, inclusionsIn, Contents.empty, Rules.not_gives_nil]

end

/-! ## The bound on the files being read -/

section
variable {d : Disk} {loading : List Text} {path : Option Text} {t : Text}

/-- The paths of the files being read, when the text at a path is. -/
def entered (d : Disk) (path : Option Text) (loading : List Text) : List Text :=
  (path.map (Path.absolute d.current)).toList ++ loading

theorem takeIn_congr {f g : Text → Reading Contents} {i : Directive.Inclusion} {target : Text} {rules : Rules}
    (h : Path.absolute d.current target ∉ loading → d.isFile (Path.absolute d.current target) = true →
      f (Path.absolute d.current target) = g (Path.absolute d.current target)) :
    takeIn d f loading i target rules = takeIn d g loading i target rules := by
  rw [takeIn, takeIn]
  generalize Path.absolute d.current target = full at h
  by_cases hloading : loading.contains full = true
  · rw [if_pos hloading, if_pos hloading]
  rw [if_neg hloading, if_neg hloading]
  by_cases hfile : d.isFile full = true
  · rw [h (fun hmem => hloading (List.contains_iff_mem.mpr hmem)) hfile]
  · simp only [if_neg hfile]

/-- Only files that are there and are not being read are asked for. -/
theorem readLines_congr {f g : List Text → Text → Reading Contents}
    (h : ∀ target, Path.absolute d.current target ∉ entered d path loading →
      d.isFile (Path.absolute d.current target) = true →
      f (entered d path loading) (Path.absolute d.current target) = g (entered d path loading) (Path.absolute d.current target)) :
    readLines d f loading path t = readLines d g loading path t := by
  unfold readLines
  rw [entered] at h
  simp only [takeIn_congr (h _)]

theorem readWithin_succ {depth : Nat} (h : d.Room (entered d path loading) depth) :
    readWithin d (depth + 1) loading path t = readWithin d depth loading path t := by
  induction depth generalizing loading path t with
  | zero =>
    rw [readWithin, readWithin]
    refine readLines_congr fun target hnew hfile => ?_
    exact (h.not_zero hfile hnew).elim
  | succ depth ih =>
    rw [readWithin]
    conv_rhs => rw [readWithin]
    refine readLines_congr fun target hnew hfile => ?_
    have hroom : d.Room (entered d (some (Path.absolute d.current target)) (entered d path loading)) depth := by
      rw [entered, Option.map_some, Path.absolute_absolute]
      exact h.pass hfile hnew
    simp only [ih hroom]

/-- With room for as many files as there are paths, the bound is never come to. -/
theorem readWithin_of_le {depth : Nat} (h : Disk.pathCount ≤ depth) :
    readWithin d depth [] path t = read d path t := by
  induction depth, h using Nat.le_induction with
  | base => rfl
  | succ depth hle ih => rw [readWithin_succ (Disk.room_pathCount.mono hle), ih]

end

/-! ## Files that can be reached -/

/-- A text at a path to begin with, in front of a disk. -/
structure Origin where
  disk : Disk
  path : Text
  text : Text

namespace Origin
variable (o : Origin)

/-- A file is known by its absolute path. -/
def root : Text := Path.absolute o.disk.current o.path

/-- The folder that the targets in a file are seen from. -/
def base (q : Text) : Text := if q = o.root then Path.folder o.path else Path.folder q

/-- What is read at a path, if anything: the text to begin with at its own one, else that of a file. -/
def textAt? (q : Text) : Option Text :=
  if q = o.root then some o.text
  else if o.disk.isFile q then (o.disk.text q).toOption
  else none

/-- Where an inclusion in the file at a path leads. -/
def target (q : Text) (i : Directive.Inclusion) : Text := Path.absolute o.disk.current (Path.join (o.base q) i.target)

/-- The file at the one path includes what is at the other. -/
def Includes (q q' : Text) : Prop := ∃ t ∈ o.textAt? q, ∃ i ∈ inclusions t, o.target q i = q'

/-- It does so by an inclusion that is no import. -/
def Loads (q q' : Text) : Prop := ∃ t ∈ o.textAt? q, ∃ i ∈ inclusions t, i.isImport = false ∧ o.target q i = q'

/-- It does so by an inclusion that takes over what a nonterminal is given. -/
def Passes (name q q' : Text) : Prop := ∃ t ∈ o.textAt? q, ∃ i ∈ inclusions t, Carries i name ∧ o.target q i = q'

variable {o} {name a q q' t t' : Text} {avoided loading : List Text}

theorem mem_textAt?_iff (hq : q ≠ o.root) : t ∈ o.textAt? q ↔ o.disk.isFile q = true ∧ o.disk.text q = .ok t := by
  rw [textAt?, if_neg hq, Option.mem_def]
  by_cases hfile : o.disk.isFile q = true
  · rw [if_pos hfile]
    rcases o.disk.text q with f | u
    · simp [Except.toOption]
    · simp [Except.toOption, hfile]
  · rw [if_neg hfile]
    simp [hfile]

theorem passes_of_ne (h : name ≠ startNonterminal) : o.Passes name = o.Includes := by
  funext q q'
  simp [Passes, Includes, Carries, h]

theorem passes_start : o.Passes startNonterminal = o.Loads := by
  funext q q'
  simp [Passes, Loads, Carries]

/-- A nonterminal is given an alternative by a file on a way from the one at a path. -/
def Gathers (o : Origin) (avoided : List Text) (q name a : Text) : Prop :=
  ∃ q' t, Avoiding (o.Passes name) avoided q q' ∧ t ∈ o.textAt? q' ∧ (stated t).Gives name a

/-- What is at the end of a way is there only if something is at its beginning. -/
theorem text_of_avoiding (h : Avoiding (o.Passes name) avoided q q') (ht : t ∈ o.textAt? q') : ∃ u, u ∈ o.textAt? q := by
  rcases Relation.ReflTransGen.cases_head h with rfl | ⟨z, ⟨⟨u, hu, -⟩, -⟩, -⟩
  · exact ⟨t, ht⟩
  · exact ⟨u, hu⟩

/-- What is gathered at a file is what it states and what is gathered at the files that it includes, past itself. -/
theorem gathers_iff (ht : t ∈ o.textAt? q) (hroot : o.root ∈ q :: avoided) : o.Gathers avoided q name a ↔
    (stated t).Gives name a ∨
      ∃ i ∈ inclusions t, TakesOver o.disk (q :: avoided) (o.Gathers (q :: avoided)) i (o.target q i) name a := by
  constructor
  · rintro ⟨q', t', hway, ht', ha⟩
    rcases avoiding_iff.mp hway with rfl | ⟨z, ⟨u, hu, i, hi, hcarries, rfl⟩, hnew, hway⟩
    · rw [Option.mem_unique ht' ht] at ha
      exact Or.inl ha
    · rw [Option.mem_unique hu ht] at hi
      obtain ⟨v, hv⟩ := text_of_avoiding hway ht'
      have hne : o.target q i ≠ o.root := fun he => hnew (he ▸ hroot)
      have hfile := ((mem_textAt?_iff hne).mp hv).1
      exact Or.inr ⟨i, hi, hnew, hfile, hcarries, q', t', hway, ht', ha⟩
  · rintro (ha | ⟨i, hi, hnew, -, hcarries, q', t', hway, ht', ha⟩)
    · exact ⟨q, t, .refl, ht, ha⟩
    · exact ⟨q', t', avoiding_iff.mpr (Or.inr ⟨_, ⟨t, ht, i, hi, hcarries, rfl⟩, hnew, hway⟩), ht', ha⟩

/-- Every file that can be reached is text. -/
def Readable (o : Origin) : Prop := ∀ q, Relation.ReflTransGen o.Includes o.root q → q ≠ o.root →
  o.disk.isFile q = true → ∃ t, o.disk.text q = .ok t

/-- No file that can be reached is to be mounted under a nonterminal. -/
def Unmounted (o : Origin) : Prop := ∀ q t, Relation.ReflTransGen o.Includes o.root q → t ∈ o.textAt? q →
  ∀ i ∈ inclusions t, i.isImport = true → i.mount = none

theorem readLines_gathers {readFile : List Text → Text → Reading Contents} {path : Text}
    (hpath : Path.absolute o.disk.current path = q) (hbase : Path.folder path = o.base q) (ht : t ∈ o.textAt? q)
    (hroot : o.root ∈ q :: loading) (hplain : ∀ i ∈ inclusions t, i.isImport = true → i.mount = none)
    (hread : ∀ i ∈ inclusions t, o.target q i ∉ q :: loading → o.disk.isFile (o.target q i) = true →
      Ends (readFile (q :: loading) (o.target q i)) (Contents.GivesJust (o.Gathers (q :: loading) (o.target q i)))) :
    Ends (readLines o.disk readFile loading (some path) t) (Contents.GivesJust (o.Gathers loading q)) := by
  have hadds : o.Gathers loading q = Adds o.disk (q :: loading) (Path.folder path) (o.Gathers (q :: loading))
      (GrammarLine.ofText t) := by
    funext name a
    rw [hbase]
    exact propext (gathers_iff ht hroot)
  rw [hadds]
  subst hpath
  refine readLines_ends hplain fun i hi full hfull hnew hfile => ?_
  rw [hbase] at hfull
  subst hfull
  exact hread i hi hnew hfile

/-- What is read at a file is what can be gathered from it past the files being read. -/
theorem reading_ends (hreadable : o.Readable) (hplain : o.Unmounted) {depth : Nat} {path : Text}
    (hpath : Path.absolute o.disk.current path = q) (hbase : Path.folder path = o.base q) (ht : t ∈ o.textAt? q)
    (hreach : Relation.ReflTransGen o.Includes o.root q) (hroot : o.root ∈ q :: loading)
    (hroom : o.disk.Room (q :: loading) depth) :
    Ends (readWithin o.disk depth loading (some path) t) (Contents.GivesJust (o.Gathers loading q)) := by
  induction depth generalizing loading path q t with
  | zero =>
    rw [readWithin]
    refine readLines_gathers hpath hbase ht hroot (hplain q t hreach ht) fun i hi hnew hfile => ?_
    exact (hroom.not_zero hfile hnew).elim
  | succ depth ih =>
    rw [readWithin]
    refine readLines_gathers hpath hbase ht hroot (hplain q t hreach ht) fun i hi hnew hfile => ?_
    have hne : o.target q i ≠ o.root := fun he => hnew (he ▸ hroot)
    have hreach' : Relation.ReflTransGen o.Includes o.root (o.target q i) := hreach.tail ⟨t, ht, i, hi, rfl⟩
    obtain ⟨u, hu⟩ := hreadable _ hreach' hne hfile
    have htext : Ends (textOf o.disk (o.target q i)) (· = u) := by
      rw [textOf, hu]
      exact ends_pure rfl
    refine htext.bind fun u' hu' => ?_
    subst hu'
    refine ih (Path.absolute_absolute _ _ _) ?_ ?_ hreach' (List.mem_cons_of_mem _ hroot) (hroom.pass hfile hnew)
    · rw [base, if_neg hne]
    · exact (mem_textAt?_iff hne).mpr ⟨hfile, hu⟩

/-- An alternative is written in a file that can be reached, by loadings alone if it is one of the start
    nonterminal. -/
def Written (o : Origin) (name a : Text) : Prop :=
  ∃ q, Relation.ReflTransGen (if name = startNonterminal then o.Loads else o.Includes) o.root q ∧
    ∃ t ∈ o.textAt? q, (stated t).Gives name a

theorem gathers_root : o.Gathers [] o.root name a ↔ o.Written name a := by
  have hpasses : o.Passes name = if name = startNonterminal then o.Loads else o.Includes := by
    by_cases hname : name = startNonterminal
    · rw [if_pos hname, hname, passes_start]
    · rw [if_neg hname, passes_of_ne hname]
  simp only [Gathers, Written, avoiding_nil, hpasses, exists_and_left]

end Origin

/-- The alternatives that are read from a text at a path are those written in all files that can be
    reached, whatever way they include each other, and a nonterminal has a rule if there are any. -/
theorem read_reachable (o : Origin) (hreadable : o.Readable) (hplain : o.Unmounted) (log : Log) :
    (∀ depth, Disk.pathCount ≤ depth →
      readWithin o.disk depth [] (some o.path) o.text = read o.disk (some o.path) o.text) ∧
    ∃ c log', (read o.disk (some o.path) o.text).run log = (.ok c, log') ∧ ∀ name,
      (∀ a, (∃ r, c.rules.find? name = some r ∧ a ∈ r.alternatives) ↔ o.Written name a) ∧
      ((c.rules.find? name).isSome = true ↔ ∃ a, o.Written name a) := by
  refine ⟨fun depth => readWithin_of_le, ?_⟩
  have hroot : o.text ∈ o.textAt? o.root := if_pos rfl
  obtain ⟨c, log', hrun, hgives⟩ := Origin.reading_ends hreadable hplain rfl (if_pos rfl).symm hroot .refl
    List.mem_cons_self Disk.room_pathCount log
  have hwritten (name a : Text) : c.rules.Gives name a ↔ o.Written name a :=
    (hgives name a).trans Origin.gathers_root
  refine ⟨c, log', hrun, fun name => ⟨fun a => ?_, ?_⟩⟩
  · rw [← Rules.gives_iff_find? (read_distinct hrun), hwritten]
  · rw [(read_full hrun).isSome_find?_iff]
    exact exists_congr (hwritten name)

/-- A file that imports one which loads it, and one that is not there. -/
def pets : Origin where
  disk := ⟨[(["b".text], .file "; load a\n; load gone\n$Main = y\n$pet = dog\n".toUTF8)], "/".text, []⟩
  path := "a".text
  text := "; import b\n$Main = x\n$pet = cat\n".text

/-- The paths that come up in reading it. -/
def petPaths : List Text := ["/a".text, "/b".text, "/gone".text]

theorem mem_petPaths {q : Text} (h : Relation.ReflTransGen pets.Includes pets.root q) : q ∈ petPaths := by
  have hclosed : ∀ q ∈ petPaths, ∀ t ∈ pets.textAt? q, ∀ i ∈ inclusions t, pets.target q i ∈ petPaths := by
    decide +kernel
  induction h with
  | refl => decide
  | @tail q q' _ hstep ih =>
    obtain ⟨t, ht, i, hi, rfl⟩ := hstep
    exact hclosed q ih t ht i hi

theorem pets_readable : pets.Readable := by
  have htexts : ∀ q ∈ petPaths, pets.disk.isFile q = true → (pets.disk.text q).toOption.isSome = true := by
    decide +kernel
  intro q hq _ hfile
  have hsome := htexts q (mem_petPaths hq) hfile
  rcases ht : pets.disk.text q with f | t
  · rw [ht] at hsome
    cases hsome
  · exact ⟨t, rfl⟩

theorem pets_unmounted : pets.Unmounted := by
  have hplain : ∀ q ∈ petPaths, ∀ t ∈ pets.textAt? q, ∀ i ∈ inclusions t, i.isImport = true → i.mount = none := by
    decide +kernel
  exact fun q t hq => hplain q (mem_petPaths hq) t

theorem read_reachable_pets : ∃ c log', (read pets.disk (some pets.path) pets.text).run [] = (.ok c, log') ∧
    (∀ a, (∃ r, c.rules.find? "$pet".text = some r ∧ a ∈ r.alternatives) ↔ a = "cat".text ∨ a = "dog".text) ∧
    (∀ a, (∃ r, c.rules.find? startNonterminal = some r ∧ a ∈ r.alternatives) ↔ a = "x".text) := by
  have hpets : ∀ q ∈ petPaths, ∀ t ∈ pets.textAt? q, ∀ r ∈ stated t, r.nonterminal = "$pet".text →
      ∀ a ∈ r.alternatives, a = "cat".text ∨ a = "dog".text := by decide +kernel
  have hloads : ∀ t ∈ pets.textAt? pets.root, ∀ i ∈ inclusions t, i.isImport = true := by decide +kernel
  have hstart : ∀ t ∈ pets.textAt? pets.root, ∀ r ∈ stated t, r.nonterminal = startNonterminal →
      ∀ a ∈ r.alternatives, a = "x".text := by decide +kernel
  obtain ⟨-, c, log', hrun, hall⟩ := read_reachable pets pets_readable pets_unmounted []
  refine ⟨c, log', hrun, fun a => ((hall _).1 a).trans ⟨?_, ?_⟩, fun a => ((hall _).1 a).trans ⟨?_, ?_⟩⟩
  · rintro ⟨q, hq, t, ht, r, hr, hname, ha⟩
    exact hpets q (mem_petPaths hq) t ht r hr hname a ha
  · rintro (rfl | rfl)
    · have hcat : ∃ t ∈ pets.textAt? pets.root, ∃ r ∈ stated t, r.nonterminal = "$pet".text ∧
          "cat".text ∈ r.alternatives := by decide +kernel
      exact ⟨pets.root, .refl, hcat⟩
    · have hdog : ∃ t ∈ pets.textAt? "/b".text, ∃ r ∈ stated t, r.nonterminal = "$pet".text ∧
          "dog".text ∈ r.alternatives := by decide +kernel
      have hstep : ∃ t ∈ pets.textAt? pets.root, ∃ i ∈ inclusions t, pets.target pets.root i = "/b".text := by
        decide +kernel
      exact ⟨"/b".text, .single hstep, hdog⟩
  · rintro ⟨q, hq, t, ht, r, hr, hname, ha⟩
    rw [if_pos rfl] at hq
    rcases Relation.ReflTransGen.cases_head hq with rfl | ⟨q', ⟨u, hu, i, hi, hload, -⟩, -⟩
    · exact hstart t ht r hr hname a ha
    · rw [hloads u hu i hi] at hload
      cases hload
  · rintro rfl
    have hx : ∃ t ∈ pets.textAt? pets.root, ∃ r ∈ stated t, r.nonterminal = startNonterminal ∧
        "x".text ∈ r.alternatives := by decide +kernel
    exact ⟨pets.root, .refl, hx⟩

end Grammar

end Errand
