/-
  Errand.Proofs.Grammar.Folders — all grammars of a folder, and what can hide them.

  A file of a folder that holds no grammar is left out with a warning. But the warning is only
  for faults of grammars: bytes that are no text are a fault of the disk, and end the loading of
  the whole folder. That happens for a grammar file itself, and for each file that it takes in
  directly or through others, mounted or not.

  - `Origin.reads_iff`: a text is read to its end if and only if all files that can be reached
    from it are texts. A file that is being read is not read once more; what lies behind it is
    reached past it all the same (`Origin.legibleFrom_iff`).
  - `loadFolder_iff`: a folder is loaded if and only if that is so for each of its grammar
    files. Then there is one grammar for each file that holds one, in the order of the names,
    and a warning for every other one.
  - `undecodable_hides`: one file of bytes that are no text hides a good grammar.
-/

import Errand.Grammar.Folder
import Errand.Proofs.Grammar.Inclusions

namespace Errand

namespace Grammar

/-! ## Readings only add to the log -/

theorem steady_warn (t : Text) : Steady (Log.warn t : Reading Unit) := ⟨.ok (), [⟨.warning, t⟩], fun _ => rfl⟩

section
variable {d : Disk}

theorem steady_textOf (path : Text) : Steady (textOf d path) := by
  rw [textOf]
  split
  · exact steady_pure _
  · exact steady_throw _

theorem steady_takeIn {readFile : Text → Reading Contents} (hread : ∀ full, Steady (readFile full)) (loading : List Text)
    (i : Directive.Inclusion) (path : Text) (rules : Rules) : Steady (takeIn d readFile loading i path rules) := by
  rw [takeIn]
  split
  · exact steady_pure _
  · split
    · rename_i nonterminal _ _
      have hmount (reason : Text) : Steady (do
          Log.warn (reason ++ "; inserting placeholder into ".text ++ nonterminal)
          pure (rules.merge ⟨nonterminal, [placeholder reason]⟩) : Reading Rules) :=
        (steady_warn _).bind fun _ => steady_pure _
      dsimp only
      split
      · refine (hread _).bind fun c => ?_
        split
        · exact (steady_pure _).bind hmount
        · exact (steady_pure _).bind hmount
      · exact (steady_pure _).bind hmount
    · split
      · exact (hread _).bind fun c => steady_pure _
      · exact (steady_warn _).bind fun _ => steady_pure _

theorem steady_readLine {readFile : Text → Reading Contents} (hread : ∀ full, Steady (readFile full)) (loading : List Text)
    (base : Text) (c : Contents) (line : GrammarLine) : Steady (readLine d readFile loading base c line) := by
  rw [readLine]
  rcases line.comment with _ | comment
  · exact steady_pure _
  · dsimp only
    rcases Directive.inclusion? comment with _ | i
    · exact steady_pure _
    · exact (steady_takeIn hread _ _ _ _).bind fun _ => steady_pure _

theorem steady_readLines {readFile : List Text → Text → Reading Contents} (hread : ∀ loading full, Steady (readFile loading full))
    (loading : List Text) (path : Option Text) (t : Text) : Steady (readLines d readFile loading path t) := by
  rw [readLines_eq]
  exact steady_foldlM (steady_readLine (hread _) _ _) _

theorem steady_readWithin (depth : Nat) (loading : List Text) (path : Option Text) (t : Text) :
    Steady (readWithin d depth loading path t) := by
  induction depth generalizing loading path t with
  | zero =>
    rw [readWithin]
    exact steady_readLines (fun _ _ => steady_pure _) _ _ _
  | succ depth ih =>
    rw [readWithin]
    exact steady_readLines (fun loading full => (steady_textOf full).bind fun t => ih loading (some full) t) _ _ _

end

/-! ## Which texts are read to their end -/

section
variable {d : Disk} {loading : List Text} {P : Text → Prop}

/-- Taking in a file ends well if there is none to be read, or else if reading it does. -/
theorem endsIff_takeIn {readFile : Text → Reading Contents} {i : Directive.Inclusion} {path : Text} {rules : Rules}
    (hread : Path.absolute d.current path ∉ loading → d.isFile (Path.absolute d.current path) = true →
      EndsIff (readFile (Path.absolute d.current path)) (P (Path.absolute d.current path))) :
    EndsIff (takeIn d readFile loading i path rules) (Path.absolute d.current path ∉ loading →
      d.isFile (Path.absolute d.current path) = true → P (Path.absolute d.current path)) := by
  rw [takeIn]
  generalize Path.absolute d.current path = full at hread
  have hwarn (t : Text) : EndsIff (Log.warn t : Reading Unit) True := fun s => iff_of_true ⟨(), _, rfl⟩ trivial
  by_cases hloading : loading.contains full = true
  · rw [if_pos hloading]
    exact (endsIff_pure _).of_iff (iff_of_true trivial fun hnew => absurd (List.contains_iff_mem.mp hloading) hnew)
  rw [if_neg hloading]
  have hnew : full ∉ loading := fun hmem => hloading (List.contains_iff_mem.mpr hmem)
  have hmount (reason nonterminal : Text) : EndsIff (do
      Log.warn (reason ++ "; inserting placeholder into ".text ++ nonterminal)
      pure (rules.merge ⟨nonterminal, [placeholder reason]⟩) : Reading Rules) True :=
    ((hwarn _).bind fun _ _ => endsIff_pure _).of_iff and_self_iff
  by_cases hfile : d.isFile full = true
  · have hone : P full ∧ True ↔ (full ∉ loading → d.isFile full = true → P full) :=
      ⟨fun h _ _ => h.1, fun h => ⟨h hnew hfile, trivial⟩⟩
    refine EndsIff.of_iff ?_ hone
    split
    · dsimp only
      rw [if_pos hfile]
      refine (hread hnew hfile).bind fun _ c => ?_
      split
      · exact hmount _ _
      · exact hmount _ _
    · rw [if_pos hfile]
      exact (hread hnew hfile).bind fun _ c => endsIff_pure _
  · have hnone : True ↔ (full ∉ loading → d.isFile full = true → P full) :=
      iff_of_true trivial fun _ h => absurd h hfile
    refine EndsIff.of_iff ?_ hnone
    split
    · dsimp only
      rw [if_neg hfile]
      exact hmount _ _
    · rw [if_neg hfile]
      exact ((hwarn _).bind fun _ _ => endsIff_pure _).of_iff and_self_iff

theorem endsIff_readLines {readFile : List Text → Text → Reading Contents} {path t : Text}
    (hread : ∀ i ∈ inclusions t, ∀ full, full = Path.absolute d.current (Path.join (Path.folder path) i.target) →
      full ∉ Path.absolute d.current path :: loading → d.isFile full = true →
      EndsIff (readFile (Path.absolute d.current path :: loading) full) (P full)) :
    EndsIff (readLines d readFile loading (some path) t) (∀ i ∈ inclusions t,
      ∀ full, full = Path.absolute d.current (Path.join (Path.folder path) i.target) →
        full ∉ Path.absolute d.current path :: loading → d.isFile full = true → P full) := by
  rw [readLines]
  simp only [Option.map_some, Option.toList_some, List.singleton_append]
  generalize Path.absolute d.current path :: loading = loading at hread
  generalize Path.folder path = base at hread
  rw [inclusions] at hread ⊢
  generalize GrammarLine.ofText t = lines at hread
  have hlines : (∀ line ∈ lines, ∀ i ∈ line.comment.bind Directive.inclusion?,
      ∀ full, full = Path.absolute d.current (Path.join base i.target) → full ∉ loading → d.isFile full = true → P full) ↔
      ∀ i ∈ inclusionsIn lines, ∀ full, full = Path.absolute d.current (Path.join base i.target) →
        full ∉ loading → d.isFile full = true → P full := by
    constructor
    · intro h i hi
      obtain ⟨line, hline, hi⟩ := List.mem_filterMap.mp hi
      exact h line hline i hi
    · exact fun h line hline i hi => h i (List.mem_filterMap.mpr ⟨line, hline, hi⟩)
  refine (endsIff_foldlM (fun line hline c => ?_) _).of_iff hlines
  rcases hcomment : line.comment with _ | comment
  · exact (endsIff_pure _).of_iff (iff_of_true trivial fun i hi => by cases hi)
  · dsimp only
    rcases hi : Directive.inclusion? comment with _ | i
    · refine (endsIff_pure _).of_iff (iff_of_true trivial fun i' hi' => ?_)
      rw [Option.bind_some, hi] at hi'
      cases hi'
    · have hmem : i ∈ inclusionsIn lines := List.mem_filterMap.mpr ⟨line, hline, by rw [hcomment]; exact hi⟩
      refine ((endsIff_takeIn (hread i hmem _ rfl)).bind fun _ rules => endsIff_pure _).of_iff ?_
      rw [Option.bind_some, hi]
      constructor
      · rintro ⟨h, -⟩ i' hi' full rfl
        cases hi'
        exact h
      · exact fun h => ⟨h i rfl _ rfl, trivial⟩

end

theorem not_mem_of_avoiding {α : Type} {R : α → α → Prop} {avoided : List α} {x y : α} (h : Avoiding R avoided x y)
    (hx : x ∉ avoided) : y ∉ avoided := by
  rcases Relation.ReflTransGen.cases_tail h with rfl | ⟨z, -, hstep⟩
  · exact hx
  · exact hstep.2

namespace Origin
variable {o : Origin} {q t : Text} {avoided loading : List Text}

/-- All files that can be reached from the one at a path, past some others, are texts. -/
def LegibleFrom (o : Origin) (avoided : List Text) (q : Text) : Prop :=
  ∀ q', Avoiding o.Includes avoided q q' → q' ≠ q → o.disk.isFile q' = true → ∃ u, o.disk.text q' = .ok u

theorem legibleFrom_root : o.LegibleFrom [] o.root ↔ o.Readable := by
  rw [LegibleFrom, Readable]
  simp only [avoiding_nil]

/-- Each file that is included and not being read is to be a text, and so are those that can be
    reached from it past the one that includes it. -/
theorem legibleFrom_iff (ht : t ∈ o.textAt? q) (hroot : o.root ∈ q :: avoided) : o.LegibleFrom avoided q ↔
    ∀ i ∈ inclusions t, ∀ full, full = o.target q i → full ∉ q :: avoided → o.disk.isFile full = true →
      (∃ u, o.disk.text full = .ok u) ∧ o.LegibleFrom (q :: avoided) full := by
  constructor
  · rintro h i hi full rfl hnew hfile
    have hstep : o.Includes q (o.target q i) := ⟨t, ht, i, hi, rfl⟩
    have hreach (q' : Text) (hway : Avoiding o.Includes (q :: avoided) (o.target q i) q')
        (hfile' : o.disk.isFile q' = true) : ∃ u, o.disk.text q' = .ok u := by
      have hnew' := not_mem_of_avoiding hway hnew
      exact h q' (avoiding_iff.mpr (Or.inr ⟨_, hstep, hnew, hway⟩)) (fun he => hnew' (he ▸ List.mem_cons_self)) hfile'
    exact ⟨hreach _ .refl hfile, fun q' hway _ hfile' => hreach q' hway hfile'⟩
  · intro h q' hway hne hfile'
    rcases avoiding_iff.mp hway with rfl | ⟨z, ⟨u, hu, i, hi, rfl⟩, hnew, hway⟩
    · exact absurd rfl hne
    rw [Option.mem_unique hu ht] at hi
    have hother : o.target q i ≠ o.root := fun he => hnew (he ▸ hroot)
    by_cases hz : q' = o.target q i
    · subst hz
      exact (h i hi _ rfl hnew hfile').1
    · -- a file from which something else is reached is there
      have hfile : o.disk.isFile (o.target q i) = true := by
        rcases Relation.ReflTransGen.cases_head hway with he | ⟨y, ⟨⟨v, hv, -⟩, -⟩, -⟩
        · exact absurd he.symm hz
        · exact ((mem_textAt?_iff hother).mp hv).1
      exact (h i hi _ rfl hnew hfile).2 q' hway hz hfile'

theorem reads_text {readFile : List Text → Text → Reading Contents} {path : Text}
    (hpath : Path.absolute o.disk.current path = q) (hbase : Path.folder path = o.base q) (ht : t ∈ o.textAt? q)
    (hroot : o.root ∈ q :: loading)
    (hread : ∀ i ∈ inclusions t, o.target q i ∉ q :: loading → o.disk.isFile (o.target q i) = true →
      EndsIff (readFile (q :: loading) (o.target q i))
        ((∃ u, o.disk.text (o.target q i) = .ok u) ∧ o.LegibleFrom (q :: loading) (o.target q i))) :
    EndsIff (readLines o.disk readFile loading (some path) t) (o.LegibleFrom loading q) := by
  refine EndsIff.of_iff ?_ (legibleFrom_iff ht hroot).symm
  simp only [target, ← hbase] at hread ⊢
  subst hpath
  exact endsIff_readLines fun i hi full hfull hnew hfile => by
    subst hfull
    exact hread i hi hnew hfile

/-- A text is read to its end if and only if all files that can be reached from it, past those
    being read, are texts. -/
theorem reads_iff {depth : Nat} {path : Text} (hpath : Path.absolute o.disk.current path = q)
    (hbase : Path.folder path = o.base q) (ht : t ∈ o.textAt? q) (hroot : o.root ∈ q :: loading)
    (hroom : o.disk.Room (q :: loading) depth) :
    EndsIff (readWithin o.disk depth loading (some path) t) (o.LegibleFrom loading q) := by
  induction depth generalizing loading path q t with
  | zero =>
    rw [readWithin]
    exact reads_text hpath hbase ht hroot fun i hi hnew hfile => (hroom.not_zero hfile hnew).elim
  | succ depth ih =>
    rw [readWithin]
    refine reads_text hpath hbase ht hroot fun i hi hnew hfile => ?_
    have hne : o.target q i ≠ o.root := fun he => hnew (he ▸ hroot)
    rcases hu : o.disk.text (o.target q i) with f | u
    · have hthrow : (textOf o.disk (o.target q i) : Reading Text) = throw f := by rw [textOf, hu]
      rw [hthrow]
      have hnone : False ∧ True ↔ (∃ u, (.error f : Except DiskFault Text) = .ok u) ∧
          o.LegibleFrom (q :: loading) (o.target q i) := by
        refine iff_of_false (fun h => h.1) ?_
        rintro ⟨⟨u, hu⟩, -⟩
        cases hu
      exact ((endsIff_throw f).bind fun h => h.elim).of_iff hnone
    · have hpure : (textOf o.disk (o.target q i) : Reading Text) = pure u := by rw [textOf, hu]
      rw [hpure, pure_bind]
      refine (ih (Path.absolute_absolute _ _ _) ?_ ?_ (List.mem_cons_of_mem _ hroot) (hroom.pass hfile hnew)).of_iff ?_
      · exact (if_neg hne).symm
      · exact (mem_textAt?_iff hne).mpr ⟨hfile, hu⟩
      · exact ⟨fun h => ⟨⟨u, rfl⟩, h⟩, fun h => h.2⟩

theorem read_iff (o : Origin) : EndsIff (read o.disk (some o.path) o.text) o.Readable :=
  (reads_iff rfl (if_pos rfl).symm (if_pos rfl) List.mem_cons_self Disk.room_pathCount).of_iff legibleFrom_root

end Origin

/-! ## Loading one file -/

section
variable {d : Disk} {path : Text} {log log' : Log}

/-- A file, if it can be opened at all, is a text, and so are all files that can be reached from it. -/
def Legible (d : Disk) (path : Text) : Prop :=
  match d.text path with
  | .ok t => (⟨d, path, t⟩ : Origin).Readable
  | .error f => f.isSystemFault = true

theorem run_adapt {ε ε' σ α : Type} {g : ε → ε'} {x : ExceptT ε (StateM σ) α} {s : σ} :
    (ExceptT.adapt g x).run s = ((x.run s).1.mapError g, (x.run s).2) := rfl

theorem steady_parse (t : Text) (path name : Option Text) (requireStart : Bool) :
    Steady (parse d t path name requireStart) := by
  rw [parse]
  refine Steady.bind ?_ fun c => ?_
  · obtain ⟨res, more, hrun⟩ := steady_readWithin (d := d) Disk.pathCount [] (path.filter (!·.isEmpty)) t
    exact ⟨res.mapError .disk, more, fun l => by rw [run_adapt, read, hrun]⟩
  · extract_lets _ _ g finish
    split
    · exact (steady_throw _).bind fun _ => steady_pure g
    · exact steady_pure g

theorem steady_load (path : Text) (requireStart : Bool) : Steady (load d path requireStart) := by
  rw [load]
  split
  · exact steady_parse _ _ _ _
  · exact steady_throw _

/-- Whether there is a rule for the start nonterminal is no question of the disk. -/
theorem parse_no_disk {t : Text} {origin name : Option Text} {requireStart : Bool} {c : Contents}
    (h : (read d (origin.filter (!·.isEmpty)) t).run log = (.ok c, log')) (f : DiskFault) :
    ((parse d t origin name requireStart).run log).1 ≠ .error (.disk f) := by
  have hread : (ExceptT.adapt GrammarFault.disk (read d (origin.filter (!·.isEmpty)) t)).run log = (.ok c, log') := by
    rw [run_adapt, h]
    rfl
  rw [parse, run_bind_ok hread]
  extract_lets _ _ g finish
  split
  · intro he
    cases he
  · intro he
    cases he

theorem load_disk_iff (hpath : path ≠ []) :
    (∃ f, ((load d path true).run log).1 = .error (.disk f)) ↔ ¬Legible d path := by
  rw [load, Legible]
  rcases d.text path with f | t
  · dsimp only
    by_cases hf : f.isSystemFault = true
    · rw [if_pos hf]
      exact iff_of_false (by rintro ⟨f, h⟩; cases h) (fun h => h hf)
    · rw [if_neg hf]
      exact iff_of_true ⟨f, rfl⟩ hf
  · dsimp only
    have horigin : (some path).filter (!·.isEmpty) = some path := by
      cases path with
      | nil => exact absurd rfl hpath
      | cons c rest => rfl
    have hread := Origin.read_iff ⟨d, path, t⟩ log
    rw [← horigin] at hread
    rw [← hread]
    constructor
    · rintro ⟨f, hf⟩ ⟨c, log', hok⟩
      exact parse_no_disk hok f hf
    · intro hno
      rcases hrun : (read d ((some path).filter (!·.isEmpty)) t).run log with ⟨f | c, log'⟩
      · have hadapt : (ExceptT.adapt GrammarFault.disk (read d ((some path).filter (!·.isEmpty)) t)).run log =
            (.error (.disk f), log') := by
          rw [run_adapt, hrun]
          rfl
        refine ⟨f, ?_⟩
        rw [parse, run_bind_error hadapt]
      · exact absurd ⟨c, log', hrun⟩ hno

end

/-! ## Loading a folder -/

section
variable {d : Disk} {folder name : Text} {names : List Text}

/-- The folder that is meant: by default the one with the bundled grammars. -/
def folderMeant (d : Disk) (folder : Option Text) : Text := (folder.filter (!·.isEmpty)).getD (Bundled.grammarFolder d)

/-- The grammar of a file in a folder, if it holds one. -/
def accepted (d : Disk) (folder name : Text) : Option Grammar :=
  ((load d (Path.join folder name) true).run []).1.toOption

/-- What is noted about a file in a folder, if that can be loaded. -/
def noted (d : Disk) (folder name : Text) : Log :=
  match (load d (Path.join folder name) true).run [] with
  | (.ok _, log) => log
  | (.error f, log) => log ++ [⟨.warning, "Skipping grammar ".text ++ name ++ ": ".text ++ f.message⟩]

/-- A file of a folder being loaded. -/
def offered (d : Disk) (folder name : Text) : Loading (Option Grammar) :=
  tryCatch (some <$> load d (Path.join folder name) true) fun f => match f with
    | .disk f => throw (.disk f)
    | f => do
      Log.warn ("Skipping grammar ".text ++ name ++ ": ".text ++ f.message)
      return none

theorem loadFolder_eq {folder : Option Text} (h : d.list (folderMeant d folder) = .ok names) :
    loadFolder d folder = (do
      let found ← (grammarNames names).mapM (offered d (folderMeant d folder))
      return found.filterMap id) := by
  rw [folderMeant] at h
  rw [loadFolder, h]
  rfl

theorem offered_run (hdisk : ∀ f, ((load d (Path.join folder name) true).run []).1 ≠ .error (.disk f)) (log : Log) :
    (offered d folder name).run log = (.ok (accepted d folder name), log ++ noted d folder name) := by
  have hrun := (steady_load (d := d) (Path.join folder name) true).run_eq log
  rw [accepted, noted]
  rcases hload : (load d (Path.join folder name) true).run [] with ⟨f | g, more⟩
  · rw [hload] at hrun hdisk
    rw [offered, map_eq_pure_bind, run_tryCatch_error (run_bind_error hrun)]
    cases f with
    | disk f => exact absurd rfl (hdisk f)
    | noStart label => exact congrArg (Prod.mk _) (List.append_assoc log more _)
    | unreadable path reason => exact congrArg (Prod.mk _) (List.append_assoc log more _)
  · rw [hload] at hrun
    exact run_tryCatch_ok (run_bind_ok hrun)

theorem offered_error {f : DiskFault} (hdisk : ((load d (Path.join folder name) true).run []).1 = .error (.disk f)) (log : Log) :
    ∃ log', (offered d folder name).run log = (.error (.disk f), log') := by
  have hrun := (steady_load (d := d) (Path.join folder name) true).run_eq log
  rw [hdisk] at hrun
  refine ⟨log ++ ((load d (Path.join folder name) true).run []).2, ?_⟩
  rw [offered, map_eq_pure_bind, run_tryCatch_error (run_bind_error hrun)]
  rfl

/-- Files are offered one after the other, and the first fault of the disk ends it. -/
theorem mapM_offered_ok (h : ∀ name ∈ names, ∀ f, ((load d (Path.join folder name) true).run []).1 ≠ .error (.disk f))
    (log : Log) : (names.mapM (offered d folder)).run log =
      (.ok (names.map (accepted d folder)), log ++ names.flatMap (noted d folder)) := by
  induction names generalizing log with
  | nil =>
    rw [List.flatMap_nil, List.append_nil]
    rfl
  | cons name names ih =>
    obtain ⟨hname, hnames⟩ := List.forall_mem_cons.mp h
    rw [List.mapM_cons, run_bind_ok (offered_run hname log), run_bind_ok (ih hnames _), List.append_assoc]
    rfl

theorem mapM_offered_error (h : ∃ name ∈ names, ∃ f, ((load d (Path.join folder name) true).run []).1 = .error (.disk f))
    (log : Log) : ∃ f log', (names.mapM (offered d folder)).run log = (.error (.disk f), log') := by
  induction names generalizing log with
  | nil =>
    obtain ⟨name, hname, -⟩ := h
    cases hname
  | cons name names ih =>
    rw [List.mapM_cons]
    by_cases hfirst : ∃ f, ((load d (Path.join folder name) true).run []).1 = .error (.disk f)
    · obtain ⟨f, hf⟩ := hfirst
      obtain ⟨log', hrun⟩ := offered_error hf log
      exact ⟨f, log', run_bind_error hrun⟩
    · have hlater : ∃ name' ∈ names, ∃ f, ((load d (Path.join folder name') true).run []).1 = .error (.disk f) := by
        obtain ⟨name', hmem, hf⟩ := h
        rcases List.mem_cons.mp hmem with rfl | hmem
        · exact absurd hf hfirst
        · exact ⟨name', hmem, hf⟩
      obtain ⟨f, log', hrun⟩ := ih hlater (log ++ noted d folder name)
      refine ⟨f, log', ?_⟩
      rw [run_bind_ok (offered_run (fun f hf => hfirst ⟨f, hf⟩) log), run_bind_error hrun]

/-! ## The names of grammar files -/

theorem ne_nil_of_mem_grammarNames (h : name ∈ grammarNames names) : name ≠ [] := by
  rintro rfl
  have hending := (List.mem_filter.mp ((List.mergeSort_perm _ _).subset h)).2
  exact absurd hending (by decide)

theorem join_ne_nil (hname : name ≠ []) : Path.join folder name ≠ [] := by
  rw [Path.join]
  split
  · exact hname
  · split
    · exact List.append_ne_nil_of_right_ne_nil _ hname
    · exact List.append_ne_nil_of_right_ne_nil _ hname

/-- Names in order stay so. -/
theorem grammarNames_eq_self (hending : ∀ name ∈ names, Text.endsWith ".txt".text (Text.lower name) = true)
    (hsorted : names.Pairwise (· ≤ ·)) : grammarNames names = names := by
  rw [grammarNames, List.filter_eq_self.mpr hending]
  exact List.mergeSort_of_pairwise (hsorted.imp decide_eq_true)

theorem grammarNames_pairwise (names : List Text) : (grammarNames names).Pairwise (· ≤ ·) := by
  have htrans (a b c : Text) (h : decide (a ≤ b) = true) (h' : decide (b ≤ c) = true) : decide (a ≤ c) = true :=
    decide_eq_true (List.le_trans (of_decide_eq_true h) (of_decide_eq_true h'))
  have htotal (a b : Text) : (decide (a ≤ b) || decide (b ≤ a)) = true := by
    rw [Bool.or_eq_true]
    exact (List.le_total a b).imp decide_eq_true decide_eq_true
  exact (List.pairwise_mergeSort htrans htotal _).imp of_decide_eq_true

end

/-- What a folder holds is loaded if and only if each of its grammar files is legible. Then each of
    them that holds a grammar gives that one, in the order of the names, and for every other one
    there is a warning. -/
theorem loadFolder_iff (d : Disk) (folder : Option Text) {names : List Text}
    (hlist : d.list (folderMeant d folder) = .ok names) :
    (grammarNames names).Pairwise (· ≤ ·) ∧
    (grammarNames names).Perm (names.filter fun name => Text.endsWith ".txt".text (Text.lower name)) ∧
    ((∀ name ∈ grammarNames names, Legible d (Path.join (folderMeant d folder) name)) → ∀ log,
      (loadFolder d folder).run log = (.ok ((grammarNames names).filterMap (accepted d (folderMeant d folder))),
        log ++ (grammarNames names).flatMap (noted d (folderMeant d folder)))) ∧
    ((∃ name ∈ grammarNames names, ¬Legible d (Path.join (folderMeant d folder) name)) → ∀ log,
      ∃ f log', (loadFolder d folder).run log = (.error (.disk f), log')) := by
  have hdisk (name : Text) (hname : name ∈ grammarNames names) :
      (∃ f, ((load d (Path.join (folderMeant d folder) name) true).run []).1 = .error (.disk f)) ↔
        ¬Legible d (Path.join (folderMeant d folder) name) :=
    load_disk_iff (join_ne_nil (ne_nil_of_mem_grammarNames hname))
  refine ⟨grammarNames_pairwise names, List.mergeSort_perm _ _, fun hlegible log => ?_, fun hillegible log => ?_⟩
  · have hrun := mapM_offered_ok (fun name hname f hf => (hdisk name hname).mp ⟨f, hf⟩ (hlegible name hname)) log
    rw [loadFolder_eq hlist, run_bind_ok hrun]
    refine congrArg (fun gs => (Except.ok gs, _)) ?_
    rw [List.filterMap_map]
    rfl
  · obtain ⟨name, hname, hno⟩ := hillegible
    obtain ⟨f, log', hrun⟩ := mapM_offered_error ⟨name, hname, (hdisk name hname).mpr hno⟩ log
    refine ⟨f, log', ?_⟩
    rw [loadFolder_eq hlist, run_bind_error hrun]

/-- A text that takes in nothing is legible. -/
theorem legible_of_text {d : Disk} {path t : Text} (ht : d.text path = .ok t) (hnone : inclusions t = []) : Legible d path := by
  rw [Legible, ht]
  intro q hreach hne
  -- nothing but the text itself is reached
  rcases Relation.ReflTransGen.cases_head hreach with he | ⟨q', ⟨u, hu, i, hi, -⟩, -⟩
  · exact absurd he.symm hne
  · have hroot : u = t := (Option.some.inj ((if_pos rfl).symm.trans hu)).symm
    rw [hroot, hnone] at hi
    cases hi

/-- A folder with a good grammar behind another file, and next to the folder a byte that is no text. -/
def twoGrammars (first : ByteArray) : Disk :=
  ⟨[(["g".text], .folder), (["g".text, "a.txt".text], .file first), (["g".text, "b.txt".text], .file "$Main = b\n".toUTF8),
    (["bad".text], .file ⟨#[0xff]⟩)], "/".text, []⟩

theorem twoNames : grammarNames ["a.txt".text, "b.txt".text] = ["a.txt".text, "b.txt".text] :=
  grammarNames_eq_self (by decide) (by decide)

/-- A file without a start rule is left out. -/
theorem loadFolder_iff_skips :
    (twoGrammars "$Mian = a\n".toUTF8).list (folderMeant (twoGrammars "$Mian = a\n".toUTF8) (some "g".text)) =
      .ok ["a.txt".text, "b.txt".text] ∧
    ∃ grammars log, (loadFolder (twoGrammars "$Mian = a\n".toUTF8) (some "g".text)).run [] = (.ok grammars, log) ∧
      grammars.map Grammar.name = ["b".text] ∧
      log.map LogEntry.text = ["Skipping grammar a.txt: Grammar 'a' has no $Main rule".text] := by
  have hmeant : folderMeant (twoGrammars "$Mian = a\n".toUTF8) (some "g".text) = "g".text := rfl
  have hlist : (twoGrammars "$Mian = a\n".toUTF8).list "g".text = .ok ["a.txt".text, "b.txt".text] := by decide +kernel
  rw [← hmeant] at hlist
  obtain ⟨-, -, hloads, -⟩ := loadFolder_iff (twoGrammars "$Mian = a\n".toUTF8) (some "g".text) hlist
  rw [twoNames, hmeant] at hloads
  have hlegible : ∀ name ∈ ["a.txt".text, "b.txt".text], Legible (twoGrammars "$Mian = a\n".toUTF8) (Path.join "g".text name) := by
    have ha : (twoGrammars "$Mian = a\n".toUTF8).text (Path.join "g".text "a.txt".text) = .ok "$Mian = a\n".text := by
      decide +kernel
    have hb : (twoGrammars "$Mian = a\n".toUTF8).text (Path.join "g".text "b.txt".text) = .ok "$Main = b\n".text := by
      decide +kernel
    refine List.forall_mem_cons.mpr ⟨legible_of_text ha (by decide +kernel), List.forall_mem_singleton.mpr ?_⟩
    exact legible_of_text hb (by decide +kernel)
  exact ⟨hlist, _, _, hloads hlegible [], by decide +kernel, by decide +kernel⟩

/-! ## Grammars that are hidden -/

/-- What comes of loading it: the names of the grammars, and how much is noted. -/
def namesLoaded (d : Disk) : Except GrammarFault (List Text) × Nat :=
  let (outcome, log) := (loadFolder d (some "g".text)).run []
  (outcome.map (·.map Grammar.name), log.length)

theorem namesLoaded_eq {first : ByteArray} (hlist : (twoGrammars first).list "g".text = .ok ["a.txt".text, "b.txt".text]) :
    namesLoaded (twoGrammars first) =
      let (outcome, log) := (["a.txt".text, "b.txt".text].mapM (offered (twoGrammars first) "g".text)).run []
      (outcome.map fun found => (found.filterMap id).map Grammar.name, log.length) := by
  have hmeant : folderMeant (twoGrammars first) (some "g".text) = "g".text := rfl
  rw [← hmeant] at hlist
  rw [namesLoaded, loadFolder_eq hlist, twoNames, hmeant, run_bind_pure]
  rcases (["a.txt".text, "b.txt".text].mapM (offered (twoGrammars first) "g".text)).run [] with ⟨f | found, log⟩
  · rfl
  · rfl

/-- A good grammar is not loaded if there is a file next to it that is no text, or one that takes in
    such a file, even one that it would not use. -/
theorem undecodable_hides : (accepted (twoGrammars ⟨#[0xff]⟩) "g".text "b.txt".text).map Grammar.name = some "b".text ∧
    namesLoaded (twoGrammars ⟨#[0xff]⟩) = (.error (.disk .undecodable), 0) ∧
    namesLoaded (twoGrammars "; load ../bad\n$Main = a\n".toUTF8) = (.error (.disk .undecodable), 0) ∧
    namesLoaded (twoGrammars "; import ../bad as $T\n$Main = a\n".toUTF8) = (.error (.disk .undecodable), 0) := by
  rw [namesLoaded_eq (by decide +kernel), namesLoaded_eq (by decide +kernel), namesLoaded_eq (by decide +kernel)]
  decide +kernel

end Grammar

end Errand
