/-
  Errand.Proofs.Grammar.Mounting — files that a text asks to mount.

  No file is ever mounted: a reason is noted, and a placeholder with the reason in it becomes an
  alternative of the nonterminal. That is so for a text itself and for all files that it takes
  in, and nothing that is read later takes the placeholder away (`readWithin_mounts`): an
  inclusion only adds to the rules and to the log (`TakenIn.grows`, `readLines_taken`).

  - `placeholder_conveyed`: if the nonterminal is given nothing else, what is drawn for it tells
    the reason that was noted if and only if the reason is conveyable.
  - `placeholder_garbled`: a dollar sign in the path is enough for a reason not to be.
-/

import Errand.Proofs.Grammar.Folders
import Errand.Proofs.Grammar.Placeholders

namespace Errand

namespace Grammar

section
variable {d : Disk} {loading : List Text} {path : Option Text} {t target nonterminal name a : Text} {log log' : Log}

/-! ## What is read stays -/

/-- An inclusion takes no alternative away. -/
theorem TakenIn.grows {readFile : Text → Reading Contents} {i : Directive.Inclusion} {path : Text} {rules rules' : Rules}
    (h : TakenIn d readFile loading i path rules log rules' log') (hgives : rules.Gives name a) : rules'.Gives name a := by
  cases h with
  | loading | missing => exact hgives
  | mounted => exact Rules.gives_merge.mpr (Or.inl hgives)
  | merged => exact Rules.gives_mergeAll.mpr (Or.inl hgives)

theorem readLine_grows {readFile : Text → Reading Contents} {base : Text} {line : GrammarLine} {c c' : Contents}
    (h : (readLine d readFile loading base c line).run log = (.ok c', log')) (hgives : c.rules.Gives name a) :
    c'.rules.Gives name a := by
  obtain ⟨c₁, rfl, ⟨hsame, -⟩ | ⟨comment, i, -, htaken⟩⟩ := readLine_cases h
  · exact Contents.gives_state.mpr (Or.inl (hsame ▸ hgives))
  · exact Contents.gives_state.mpr (Or.inl (htaken.grows hgives))

theorem foldlM_readLine_grows {readFile : Text → Reading Contents} {base : Text} {lines : List GrammarLine} {c c' : Contents}
    (h : (lines.foldlM (readLine d readFile loading base) c).run log = (.ok c', log')) (hgives : c.rules.Gives name a) :
    c'.rules.Gives name a :=
  run_foldlM_invariant (fun _ _ _ _ _ hc h => readLine_grows h hc) h hgives

/-- An inclusion of a text is taken in at some point, and what it gives and notes is there in the end. -/
theorem readLines_taken {readFile : List Text → Text → Reading Contents} (hread : ∀ loading full, Steady (readFile loading full))
    {i : Directive.Inclusion} (hi : i ∈ inclusions t) {c : Contents}
    (h : (readLines d readFile loading path t).run log = (.ok c, log')) :
    ∃ rules log₁ rules' log₂, TakenIn d (readFile (entered d path loading)) (entered d path loading) i
        (Path.join (baseFor d path) i.target) rules log₁ rules' log₂ ∧
      (∀ name a, rules'.Gives name a → c.rules.Gives name a) ∧ log₂ <+: log' := by
  rw [readLines_eq] at h
  obtain ⟨line, hline, hi⟩ := List.mem_filterMap.mp hi
  obtain ⟨comment, hcomment, hi⟩ := Option.bind_eq_some_iff.mp hi
  obtain ⟨front, back, hlines⟩ := List.append_of_mem hline
  rw [hlines, List.foldlM_append, run_bind_eq_ok] at h
  obtain ⟨c₁, log₁, -, h⟩ := h
  rw [List.foldlM_cons, run_bind_eq_ok] at h
  obtain ⟨c₂, log₂, hhere, hback⟩ := h
  rw [readLine, hcomment] at hhere
  dsimp only at hhere
  rw [hi] at hhere
  obtain ⟨rules', log₂', hrun, hhere⟩ := run_bind_eq_ok.mp hhere
  obtain ⟨rfl, rfl⟩ := run_pure_eq_ok.mp hhere
  refine ⟨_, log₁, rules', log₂', takenIn_of_run hrun, fun name a hgives => ?_, ?_⟩
  · exact foldlM_readLine_grows hback (Contents.gives_state.mpr (Or.inl hgives))
  · exact (steady_foldlM (steady_readLine (hread _) _ _) _).isPrefix hback

/-! ## Mounts -/

/-- A text that is read asks to mount the file at `target` under the nonterminal, itself or in a file
    that is merged into it. A file that is being read is neither mounted nor merged. -/
inductive Mounts (d : Disk) (nonterminal : Text) : (loading : List Text) → (path : Option Text) → (t target : Text) → Prop
  | here {loading : List Text} {path : Option Text} {t : Text} {i : Directive.Inclusion} : i ∈ inclusions t →
      i.isImport = true → nonterminal ∈ i.mount →
      Path.absolute d.current (Path.join (baseFor d path) i.target) ∉ entered d path loading →
      Mounts d nonterminal loading path t (Path.join (baseFor d path) i.target)
  | within {loading : List Text} {path : Option Text} {t u target full : Text} {i : Directive.Inclusion} : i ∈ inclusions t →
      (i.isImport = true → i.mount = none) → Carries i nonterminal →
      full = Path.absolute d.current (Path.join (baseFor d path) i.target) → full ∉ entered d path loading →
      d.isFile full = true → d.text full = .ok u → Mounts d nonterminal (entered d path loading) (some full) u target →
      Mounts d nonterminal loading path t target

/-- The reason for not mounting a file is noted, and the nonterminal is given a placeholder with it. -/
def Refused (target nonterminal : Text) (rules : Rules) (log : Log) (reason : Text) : Prop :=
  reason ∈ reasonsFor target ∧ mountWarning reason nonterminal ∈ log ∧ rules.Gives nonterminal (placeholder reason)

theorem Refused.grows {rules rules' : Rules} {reason : Text} (h : Refused target nonterminal rules log reason)
    (hgives : ∀ a, rules.Gives nonterminal a → rules'.Gives nonterminal a) (hlog : log <+: log') :
    Refused target nonterminal rules' log' reason :=
  ⟨h.1, hlog.subset h.2.1, hgives _ h.2.2⟩

theorem TakenIn.refused {readFile : Text → Reading Contents} {i : Directive.Inclusion} {target : Text} {rules rules' : Rules}
    (h : TakenIn d readFile loading i target rules log rules' log') (hnew : Path.absolute d.current target ∉ loading)
    (himport : i.isImport = true) (hmount : nonterminal ∈ i.mount) :
    ∃ reason, Refused target nonterminal rules' log' reason := by
  cases h with
  | loading hmem => exact absurd hmem hnew
  | mounted _ _ hname hreason =>
    rw [Option.mem_unique hname hmount]
    refine ⟨_, hreason, List.mem_append_right _ List.mem_cons_self, Rules.gives_merge.mpr (Or.inr ⟨rfl, ?_⟩)⟩
    exact List.mem_cons_self
  | merged _ hplain | missing _ hplain =>
    rw [hplain himport] at hmount
    cases hmount

/-- What is merged for a file is what is read in it. -/
theorem TakenIn.read {readFile : Text → Reading Contents} {i : Directive.Inclusion} {target : Text} {rules rules' : Rules}
    (h : TakenIn d readFile loading i target rules log rules' log') (hnew : Path.absolute d.current target ∉ loading)
    (hplain : i.isImport = true → i.mount = none) (hfile : d.isFile (Path.absolute d.current target) = true) :
    ∃ c, (readFile (Path.absolute d.current target)).run log = (.ok c, log') ∧
      ∀ name a, Carries i name → c.rules.Gives name a → rules'.Gives name a := by
  cases h with
  | loading hmem => exact absurd hmem hnew
  | mounted _ himport hname =>
    rw [hplain himport] at hname
    cases hname
  | @merged c _ _ _ _ hc =>
    exact ⟨c, hc, fun name a hcarries hgives => Rules.gives_mergeAll.mpr (Or.inr (gives_overtaken.mpr ⟨hcarries, hgives⟩))⟩
  | missing _ _ hnone =>
    rw [hfile] at hnone
    cases hnone

/-- Whatever the depth, a text is read line by line, with some way to read files. -/
theorem exists_readLines (d : Disk) (depth : Nat) : ∃ readFile : List Text → Text → Reading Contents,
    (∀ loading full, Steady (readFile loading full)) ∧
      ∀ loading path t, readWithin d depth loading path t = readLines d readFile loading path t := by
  cases depth with
  | zero => exact ⟨_, fun _ _ => steady_pure _, fun _ _ _ => rfl⟩
  | succ depth =>
    exact ⟨_, fun loading full => (steady_textOf full).bind fun t => steady_readWithin depth loading (some full) t,
      fun _ _ _ => rfl⟩

/-- A file that is to be mounted is refused. -/
theorem readWithin_mounts (hmounts : Mounts d nonterminal loading path t target) {depth : Nat}
    (hroom : d.Room (entered d path loading) depth) {c : Contents}
    (h : (readWithin d depth loading path t).run log = (.ok c, log')) :
    ∃ reason, Refused target nonterminal c.rules log' reason := by
  induction hmounts generalizing depth c log log' with
  | @here loading path t i hi himport hmount hnew =>
    obtain ⟨readFile, hread, hlines⟩ := exists_readLines d depth
    rw [hlines] at h
    obtain ⟨rules, log₁, rules', log₂, htaken, hgives, hlog⟩ := readLines_taken hread hi h
    obtain ⟨reason, hreason⟩ := htaken.refused hnew himport hmount
    exact ⟨reason, hreason.grows (hgives nonterminal) hlog⟩
  | @within loading path t u target full i hi hplain hcarries hfull hnew hfile htext _ ih =>
    subst hfull
    cases depth with
    | zero => exact (hroom.not_zero hfile hnew).elim
    | succ depth =>
      have hread (loading : List Text) (full : Text) :
          Steady (do readWithin d depth loading (some full) (← textOf d full)) :=
        (steady_textOf full).bind fun t => steady_readWithin depth loading (some full) t
      obtain ⟨rules, log₁, rules', log₂, htaken, hgives, hlog⟩ := readLines_taken hread hi h
      obtain ⟨c', hrun, hmerged⟩ := htaken.read hnew hplain hfile
      obtain ⟨u', log₃, hu, hrun⟩ := run_bind_eq_ok.mp hrun
      rw [textOf, htext] at hu
      obtain ⟨rfl, rfl⟩ := run_pure_eq_ok.mp hu
      have hroom' : d.Room (entered d (some (Path.absolute d.current (Path.join (baseFor d path) i.target)))
          (entered d path loading)) depth := by
        rw [entered, Option.map_some, Path.absolute_absolute]
        exact hroom.pass hfile hnew
      obtain ⟨reason, hreason⟩ := ih hroom' hrun
      exact ⟨reason, hreason.grows (fun a ha => hgives _ _ (hmerged _ _ hcarries ha)) hlog⟩

/-! ## Placeholders in a grammar -/

/-- The rules of a grammar are those that are read, expanded. -/
theorem parse_eq_ok {origin name : Option Text} {requireStart : Bool} {g : Grammar}
    (h : (parse d t origin name requireStart).run log = (.ok g, log')) :
    ∃ c, (read d (origin.filter (!·.isEmpty)) t).run log = (.ok c, log') ∧ g.rules = c.rules.expanded := by
  rw [parse] at h
  obtain ⟨c, log₁, hread, h⟩ := run_bind_eq_ok.mp h
  have hread' : (read d (origin.filter (!·.isEmpty)) t).run log = (.ok c, log₁) := by
    rw [run_adapt] at hread
    rcases hrun : (read d (origin.filter (!·.isEmpty)) t).run log with ⟨f | c', log₂⟩
    · rw [hrun] at hread
      cases hread
    · rw [hrun] at hread
      cases hread
      rfl
  extract_lets _ _ g' finish at h
  split at h
  · cases h
  · obtain ⟨rfl, rfl⟩ := run_pure_eq_ok.mp h
    exact ⟨c, hread', rfl⟩

end

/-- A reason is noted for each file that a text asks to mount. If the nonterminal has no other
    alternative, every sentence drawn for it is one void wildcard with that reason, and no nonterminal is
    replaced in it, if and only if the reason is conveyable. -/
theorem placeholder_conveyed {d : Disk} {t target nonterminal b : Text} {origin name : Option Text} {requireStart : Bool}
    {g : Grammar} {log log' : Log} (hparse : (parse d t origin name requireStart).run log = (.ok g, log'))
    (hmounts : Mounts d nonterminal [] (origin.filter (!·.isEmpty)) t target)
    (hsingle : g.rules.alternativesFor nonterminal = [b]) :
    ∃ noted, log' = log ++ noted ∧ ∃ reason ∈ reasonsFor target, mountWarning reason nonterminal ∈ noted ∧
      (g.rules.Conveys nonterminal reason ↔ Conveyable reason) := by
  -- what is noted for the text is what is noted for it if nothing was before
  obtain ⟨res, noted, hsteady⟩ := steady_parse (d := d) t origin name requireStart
  rw [hsteady] at hparse
  obtain ⟨rfl, rfl⟩ := Prod.mk.inj hparse
  obtain ⟨c, hread, hrules⟩ := parse_eq_ok (hsteady [])
  obtain ⟨reason, hreason, hnoted, hgives⟩ := readWithin_mounts hmounts Disk.room_pathCount hread
  rw [hrules] at hsingle ⊢
  exact ⟨noted, rfl, reason, hreason, hnoted, Rules.conveys_iff (read_regular hread) hgives hsingle⟩

/-- A disk with nothing on it. -/
def bareDisk : Disk := ⟨[], "/".text, []⟩

theorem placeholder_conveyed_brackets : ∃ g, (parse bareDisk "; import b(1).txt as $x\n$Main = $x".text none none true).run [] =
      (.ok g, [mountWarning "File /b(1).txt not found".text "$x".text]) ∧
    Mounts bareDisk "$x".text [] none "; import b(1).txt as $x\n$Main = $x".text "/b(1).txt".text ∧
    g.rules.alternativesFor "$x".text = ["\x7bvoid meta: File /b\\(1\\).txt not found\x7d".text] ∧
    g.rules.Conveys "$x".text "File /b(1).txt not found".text := by
  have hview : ((parse bareDisk "; import b(1).txt as $x\n$Main = $x".text none none true).run []).1.toOption.map
      (fun g => g.rules.alternativesFor "$x".text) = some ["\x7bvoid meta: File /b\\(1\\).txt not found\x7d".text] := by
    decide +kernel
  have hlog : ((parse bareDisk "; import b(1).txt as $x\n$Main = $x".text none none true).run []).2 =
      [mountWarning "File /b(1).txt not found".text "$x".text] := by decide +kernel
  obtain ⟨g, log, hparse, hsingle⟩ := ok_of_toOption hview
  rw [hparse] at hlog
  obtain rfl : log = _ := hlog
  have hi : ⟨"import".text, "b(1).txt".text, some "$x".text⟩ ∈ inclusions "; import b(1).txt as $x\n$Main = $x".text := by
    decide +kernel
  have hmounts : Mounts bareDisk "$x".text [] none "; import b(1).txt as $x\n$Main = $x".text "/b(1).txt".text :=
    .here hi (by decide) (by decide) (by decide)
  obtain ⟨noted, hnoted, reason, -, hreason, hconveys⟩ := placeholder_conveyed hparse hmounts hsingle
  rw [List.nil_append] at hnoted
  rw [← hnoted, List.mem_singleton] at hreason
  obtain rfl : reason = "File /b(1).txt not found".text := 
    List.append_cancel_right (List.append_cancel_right (LogEntry.mk.inj hreason).2)
  refine ⟨g, hparse, hmounts, hsingle, hconveys.mpr ?_⟩
  exact conveyable_plain (by decide) (by decide) (by decide) (by decide) (by decide)

/-- A dollar sign in the path is not escaped, and what is behind it is replaced with nothing. -/
theorem placeholder_garbled : ∃ g, (parse bareDisk "; import b$ad.txt as $x\n$Main = $x".text none none true).run [] =
      (.ok g, [mountWarning "File /b$ad.txt not found".text "$x".text]) ∧
    Mounts bareDisk "$x".text [] none "; import b$ad.txt as $x\n$Main = $x".text "/b$ad.txt".text ∧
    g.rules.alternativesFor "$x".text = [placeholder "File /b$ad.txt not found".text] ∧
    ((Sentence.drawFrom g.rules "$x".text).run (⟨[]⟩ : Script)).1 = .ok "\x7bvoid meta: File /b.txt not found\x7d".text ∧
    ¬IsNotice "\x7bvoid meta: File /b.txt not found\x7d".text "File /b$ad.txt not found".text := by
  have hview : ((parse bareDisk "; import b$ad.txt as $x\n$Main = $x".text none none true).run []).1.toOption.map (·.rules) =
      some [⟨"$x".text, [placeholder "File /b$ad.txt not found".text]⟩, ⟨startNonterminal, ["$x".text]⟩] := by
    decide +kernel
  have hlog : ((parse bareDisk "; import b$ad.txt as $x\n$Main = $x".text none none true).run []).2 =
      [mountWarning "File /b$ad.txt not found".text "$x".text] := by decide +kernel
  obtain ⟨g, log, hparse, hrules⟩ := ok_of_toOption hview
  rw [hparse] at hlog
  obtain rfl : log = _ := hlog
  have hi : ⟨"import".text, "b$ad.txt".text, some "$x".text⟩ ∈ inclusions "; import b$ad.txt as $x\n$Main = $x".text := by
    decide +kernel
  refine ⟨g, hparse, .here hi (by decide) (by decide) (by decide), ?_, ?_, fun hnotice => ?_⟩
  · rw [hrules]
    decide +kernel
  · rw [hrules]
    decide +kernel
  · have hdollar : .char '$' ∈ "\x7bvoid meta: File /b.txt not found\x7d".text := hnotice.sublist.subset (by decide)
    exact absurd hdollar (by decide)

end Grammar

end Errand
