/-
  Errand.Proofs.Grammar.Escaping — alternatives that are nothing but text.

  Brackets and bars mean something wherever an alternative is read: to the splitting at bars,
  to the unwrapping of brackets, to the expansion of groups. A backslash in front of
  each of them (`Sentence.escape`) takes them out of play for all of these, and when
  the sentence is drawn the backslashes are dropped again (`unescape_escape`).

  - `Grammar.escaped_drawn`: a rule of escaped alternatives is read, makes no further rule, and
    what can be drawn from it are the texts before they were escaped, without the blanks at
    their ends.
-/

import Errand.Proofs.Grammar.Drawing
import Errand.Proofs.Grammar.Lines
import Errand.Proofs.Grammar.Reading

namespace Errand

/-! ## Escaped texts -/

namespace Sentence

/-- The characters that a backslash in front of them makes plain. -/
def isGrouping (c : CodePoint) : Bool := c = '(' || c = ')' || c = '|'

/-- The text with a backslash in front of each bracket and each bar. -/
def escape : Text → Text
  | [] => []
  | c :: rest => if isGrouping c then '\\' :: c :: escape rest else c :: escape rest

theorem escape_append (t u : Text) : escape (t ++ u) = escape t ++ escape u := by
  induction t with
  | nil => rfl
  | cons c t ih =>
    rw [List.cons_append, escape, escape, ih]
    split <;> rfl

/-- Each bracket and each bar has its backslash in front. -/
theorem head_escape (t : Text) : ∀ c ∈ (escape t).head?, isGrouping c = false := by
  cases t with
  | nil => exact fun c hc => by cases hc
  | cons d t =>
    rw [escape]
    split
    · intro c hc
      cases hc
      rfl
    · rename_i hd
      intro c hc
      cases hc
      exact Bool.eq_false_iff.mpr hd

/-- The text comes back as it was, its own backslashes too. -/
theorem unescape_escape (t : Text) : unescape (escape t) = t := by
  induction t with
  | nil => rw [escape, unescape]
  | cons c t ih =>
    rw [escape]
    by_cases hgrouping : isGrouping c = true
    · rw [if_pos hgrouping, unescape, ih]
      exact if_pos hgrouping
    · rw [if_neg hgrouping]
      by_cases hc : c = .char '\\'
      · subst hc
        -- behind a backslash of the text no bracket or bar comes first
        cases hrest : escape t with
        | nil =>
          rw [hrest] at ih
          rw [← ih]
          rfl
        | cons d more =>
          have hd := head_escape t d (by rw [hrest]; rfl)
          rw [unescape, ← hrest, ih]
          exact if_neg (by simpa [isGrouping] using hd)
      · rw [unescape, ih]
        intro d more e
        exact absurd e hc

theorem getLast?_escape (t : Text) : (escape t).getLast? = t.getLast? := by
  induction t using List.reverseRecOn with
  | nil => rfl
  | append_singleton t c _ =>
    rw [escape_append, List.getLast?_append, List.getLast?_append, escape]
    split <;> rfl

theorem trimmed_escape {t : Text} (h : Text.Trimmed t) : Text.Trimmed (escape t) := by
  refine ⟨?_, by rw [getLast?_escape]; exact h.2⟩
  cases t with
  | nil => exact h.1
  | cons c t =>
    rw [escape]
    split
    · intro d hd
      cases hd
      rfl
    · exact h.1

theorem trim_escape (t : Text) : Text.trim (escape t) = escape (Text.trim t) := by
  obtain ⟨left, right, ht, hleft, hright⟩ := Text.exists_trim t
  have hblank : ∀ u : Text, (∀ c ∈ u, Text.isBlank c = true) → escape u = u := by
    intro u hu
    induction u with
    | nil => rfl
    | cons c u ih =>
      have hc : isGrouping c = false := by
        have hplain := plain_of_isBlank (hu c List.mem_cons_self)
        simp [isGrouping, hplain.separator, show c ≠ '(' from hplain.opening, show c ≠ ')' from hplain.closing]
      rw [escape, hc, ih fun d hd => hu d (List.mem_cons_of_mem _ hd)]
      rfl
  conv_lhs => rw [ht, escape_append, escape_append, hblank left hleft, hblank right hright]
  exact Text.trim_append hleft (trimmed_escape (Text.trim_trimmed t)) hright

/-! ## What reads an alternative -/

section
variable {t : Text} (h : .char '\\' ∉ t)
include h

/-- Escaped text is not split, and closes whatever it opens. -/
theorem unsplit_escape : Bracket.Unsplit '|' .round .start (escape t) ∧
    Bracket.Standing.start.after .round (escape t) = .start := by
  induction t with
  | nil => exact ⟨Bracket.unsplit_nil _, rfl⟩
  | cons c t ih =>
    obtain ⟨hc, ht⟩ := List.ne_and_not_mem_of_not_mem_cons h
    obtain ⟨hunsplit, hafter⟩ := ih ht
    rw [escape]
    by_cases hgrouping : isGrouping c = true
    · -- behind the backslash the character is out of play, and behind that all is as before
      rw [if_pos hgrouping, Bracket.unsplit_cons_iff, Bracket.unsplit_cons_iff]
      refine ⟨⟨by decide, ?_, hunsplit⟩, hafter⟩
      intro hcut
      cases hcut.2
    · have hplain : Bracket.Plain '|' .round c := by
        simp only [isGrouping, Bool.or_eq_true, decide_eq_true_eq, not_or] at hgrouping
        exact ⟨hc.symm, hgrouping.1.1, hgrouping.1.2, hgrouping.2⟩
      rw [if_neg hgrouping, Bracket.unsplit_cons_iff, Bracket.Standing.after_cons, hplain.step]
      exact ⟨⟨fun hcut => hplain.separator hcut.1, hunsplit⟩, hafter⟩

theorem unopened_escape : Unopened (escape t) := by
  induction t with
  | nil => exact .nil
  | cons c t ih =>
    obtain ⟨hc, ht⟩ := List.ne_and_not_mem_of_not_mem_cons h
    rw [escape]
    by_cases hgrouping : isGrouping c = true
    · rw [if_pos hgrouping]
      exact (ih ht).escaped
    · rw [if_neg hgrouping]
      refine (ih ht).plain hc.symm ?_
      rintro rfl
      exact hgrouping rfl

/-- There is no group to expand in an escaped text. -/
theorem settled_escape : Settled (escape t) := by
  have hcut := Cut.ofText_unopened (unopened_escape h) []
  rw [List.append_nil, Cut.ofText] at hcut
  rw [← Cut.groups_eq_nil_iff, hcut]

end

/-- An escaped text is one alternative, and not one in brackets. -/
theorem alternativesOfTrimmed_escape (t : Text) : alternativesOfTrimmed (escape t) = [escape t] := by
  have hnone : unwrapped? (escape t) = none := by
    cases t with
    | nil => rfl
    | cons c t =>
      rw [escape]
      by_cases hgrouping : isGrouping c = true
      · rw [if_pos hgrouping]
        rfl
      · rw [if_neg hgrouping, unwrapped?]
        rintro rest e
        cases e
        exact hgrouping rfl
  rw [alternativesOfTrimmed, hnone]

theorem trimmedSegments_escaped {texts : List Text} (hne : texts ≠ []) (h : ∀ t ∈ texts, .char '\\' ∉ t) :
    trimmedSegments (Text.join " | ".text (texts.map escape)) = texts.map fun t => escape (Text.trim t) := by
  have hunsplit : ∀ a ∈ texts.map escape, Bracket.Unsplit '|' .round .start a := by
    intro a ha
    obtain ⟨t, ht, rfl⟩ := List.mem_map.mp ha
    exact (unsplit_escape (h t ht)).1
  have hclosed : ∀ a ∈ (texts.map escape).dropLast, IsClosed a := by
    intro a ha
    obtain ⟨t, ht, rfl⟩ := List.mem_map.mp (List.mem_of_mem_dropLast ha)
    exact congrArg Bracket.Standing.depth (unsplit_escape (h t ht)).2
  rw [trimmedSegments_join (by simpa using hne) hunsplit hclosed, List.map_map]
  exact List.map_congr_left fun t _ => trim_escape t

/-- The alternatives in a list of escaped texts are these texts. -/
theorem alternativesIn_join {texts : List Text} (hne : texts ≠ []) (h : ∀ t ∈ texts, .char '\\' ∉ t) :
    alternativesIn (Text.join " | ".text (texts.map escape)) = texts.map fun t => escape (Text.trim t) := by
  rw [alternativesIn_eq_trimmed, trimmedSegments_escaped hne h, List.flatMap_map]
  simp only [alternativesOfTrimmed_escape]
  exact List.map_eq_flatMap.symm

end Sentence

/-! ## Texts that mean nothing more -/

namespace Sentence

/-- A text of one line in which nothing but brackets and bars means anything to a grammar. -/
structure Verbatim (t : Text) : Prop where
  unescaped : .char '\\' ∉ t
  terminal : .char '$' ∉ t
  unmarked : ∀ c ∈ t, GrammarLine.isCommentMark c = false
  noLineComment : ¬"//".text <:+: t
  noBlockComment : ¬"/*".text <:+: t
  oneLine : ∀ c ∈ t, Text.isLineBreak c = false

theorem Verbatim.uncommented {t : Text} (h : Verbatim t) : GrammarLine.Uncommented t := by
  refine ⟨h.unmarked, (List.isChain_isInfix t).imp ?_⟩
  rintro a b hinside ⟨rfl, rfl | rfl⟩
  · exact h.noLineComment hinside
  · exact h.noBlockComment hinside

theorem mem_escape {t : Text} {c : CodePoint} (h : c ∈ escape t) : c = '\\' ∨ c ∈ t := by
  induction t with
  | nil => cases h
  | cons d t ih =>
    rw [escape] at h
    split at h
    · grind
    · grind

/-- A backslash keeps no two characters together that were not, and takes none apart that begin
    a comment. -/
theorem uncommented_escape {t : Text} (h : GrammarLine.Uncommented t) : GrammarLine.Uncommented (escape t) := by
  refine ⟨fun c hc => ?_, ?_⟩
  · rcases mem_escape hc with rfl | hc
    · rfl
    · exact h.unmarked c hc
  replace h := h.unopened
  induction t with
  | nil => exact .nil
  | cons c t ih =>
    obtain ⟨hpair, ht⟩ := List.isChain_cons.mp h
    have hnext : ∀ d ∈ (escape t).head?, ¬GrammarLine.OpensComment c d := by
      cases t with
      | nil => exact fun d hd => by cases hd
      | cons e t =>
        intro d hd
        rw [escape] at hd
        split at hd
        · cases hd
          rintro ⟨-, hd | hd⟩ <;> cases hd
        · cases hd
          exact hpair _ rfl
    rw [escape]
    split
    · refine ((ih ht).cons hnext).cons fun d _ => ?_
      rintro ⟨hslash, -⟩
      cases hslash
    · exact (ih ht).cons hnext

end Sentence

/-! ## What is drawn -/

namespace Sentence
variable {σ : Type} [RandomSource σ] {rules : Rules}

omit [RandomSource σ] in
theorem run_terminals (f : Text → Draw σ Text) (t : Text) (s : σ) :
    ((t.map Symbol.terminal).mapM (spelled f)).run s = (.ok (t.map fun c => [c]), s) := by
  induction t with
  | nil => rfl
  | cons c t ih =>
    have hc : (spelled f (.terminal c)).run s = (.ok [c], s) := rfl
    rw [List.map_cons, List.mapM_cons, run_bind_ok hc, run_bind_ok ih]
    rfl

/-- A text without nonterminals becomes itself, and nothing is drawn. -/
theorem expand_of_symbols {t : Text} (h : symbols t = t.map .terminal) (depth : Nat) (s : σ) :
    (expand rules depth t).run s = (.ok t, s) := by
  have hflatten : (t.map fun c => [c]).flatten = t := by
    rw [← List.flatMap_def, List.flatMap_singleton']
  cases depth with
  | zero =>
    rw [expand_zero, h, map_eq_pure_bind, run_bind_ok (run_terminals _ t s), hflatten]
    rfl
  | succ depth =>
    rw [expand_succ, h, map_eq_pure_bind, run_bind_ok (run_terminals _ t s), hflatten]
    rfl

/-- What is drawn for a nonterminal alone. -/
def drawFrom (rules : Rules) (nonterminal : Text) : Draw σ Text := do
  let first ← modifyGet (pick rules nonterminal)
  return unescape (← expand rules (maxDepth - 1) first)

theorem draw_eq : (draw rules : Draw σ Text) = drawFrom rules startNonterminal := rfl

/-- What is drawn for a nonterminal if no alternative of it has a nonterminal in it. -/
theorem drawFrom_of_symbols {nonterminal : Text}
    (h : ∀ a ∈ rules.alternativesFor nonterminal, symbols a = a.map .terminal) (s : σ) :
    (drawFrom rules nonterminal).run s =
      (.ok (unescape (pick rules nonterminal s).1), (pick rules nonterminal s).2) := by
  rw [drawFrom, run_bind_ok (run_pick nonterminal s), run_bind_ok (expand_of_symbols (h _ (pick_mem _ s)) _ _)]
  rfl

theorem draw_terminal (h : ∀ a ∈ rules.alternativesFor startNonterminal, .char '$' ∉ a) (s : σ) :
    (draw rules).run s = (.ok (unescape (pick rules startNonterminal s).1), (pick rules startNonterminal s).2) := by
  rw [draw_eq, drawFrom_of_symbols fun a ha => symbols_plain (h a ha)]

end Sentence

/-! ## A rule of escaped alternatives -/

namespace Grammar

section
variable {texts : List Text} (hverbatim : ∀ t ∈ texts, Sentence.Verbatim t)
include hverbatim

theorem escaped_oneLine : ∀ c ∈ Rule.written ⟨startNonterminal, texts.map Sentence.escape⟩, Text.isLineBreak c = false := by
  have hfront : ∀ c ∈ startNonterminal ++ " = ".text, Text.isLineBreak c = false := by decide
  refine List.forall_mem_append.mpr ⟨hfront, Text.forall_mem_join (by decide) ?_⟩
  intro e he c hc
  obtain ⟨t, ht, rfl⟩ := List.mem_map.mp he
  rcases Sentence.mem_escape hc with rfl | hc
  · rfl
  · exact (hverbatim t ht).oneLine c hc

theorem escaped_uncommented : GrammarLine.Uncommented (Rule.written ⟨startNonterminal, texts.map Sentence.escape⟩) := by
  have hfront : GrammarLine.Uncommented (startNonterminal ++ " = ".text) := ⟨by decide, by decide⟩
  refine hfront.append (GrammarLine.uncommented_join fun e he => ?_) ?_
  · obtain ⟨t, ht, rfl⟩ := List.mem_map.mp he
    exact Sentence.uncommented_escape (hverbatim t ht).uncommented
  · rintro a ha b - ⟨hslash, -⟩
    cases ha
    cases hslash

/-- The line is read as the rule that it writes, without the blanks around its alternatives. -/
theorem read?_escaped (hne : texts ≠ []) (hblank : ∀ t, texts = [t] → Text.trim t ≠ []) :
    Rule.read? (Text.trim (Rule.written ⟨startNonterminal, texts.map Sentence.escape⟩)) =
      some ⟨startNonterminal, texts.map fun t => Sentence.escape (Text.trim t)⟩ := by
  have hback : ∀ t ∈ texts, .char '\\' ∉ t := fun t ht => (hverbatim t ht).unescaped
  have hbody : Text.trim (Text.join " | ".text (texts.map Sentence.escape)) ≠ [] := by
    -- a body of blanks would list the empty alternative, and that one alone
    intro hnil
    have hsegments := Sentence.trimmedSegments_escaped hne hback
    rw [← trimmedSegments_trim, hnil] at hsegments
    obtain ⟨t, ht, he⟩ := List.map_eq_singleton_iff.mp hsegments.symm
    refine hblank t ht ?_
    cases htrim : Text.trim t with
    | nil => rfl
    | cons c u =>
      rw [htrim, Sentence.escape] at he
      split at he <;> cases he
  have hbreak : .char '\n' ∉ Text.join " | ".text (texts.map Sentence.escape) := by
    intro hmem
    have := escaped_oneLine hverbatim _ (List.mem_append_right _ hmem)
    cases this
  exact (Rule.read?_start hbody hbreak).trans (by rw [Sentence.alternativesIn_join hne hback])

end

/-- A rule of escaped texts is read as it is written, makes no further rule, and what can be drawn
    from it are just the texts without the blanks at their ends. -/
theorem escaped_drawn (d : Disk) (path name : Option Text) (requireStart : Bool) (log : Log) {texts : List Text}
    (hne : texts ≠ []) (hverbatim : ∀ t ∈ texts, Sentence.Verbatim t) (hblank : ∀ t, texts = [t] → Text.trim t ≠ []) :
    ∃ g, (parse d (Rule.written ⟨startNonterminal, texts.map Sentence.escape⟩) path name requireStart).run log =
        (.ok g, log) ∧
      Rules.names g.rules = [startNonterminal] ∧
      (∀ (σ : Type) [RandomSource σ] (s : σ), ∃ t ∈ texts, ∃ s', (Sentence.draw g.rules).run s = (.ok (Text.trim t), s')) ∧
      ∀ t ∈ texts, ∃ s s' : Script, (Sentence.draw g.rules).run s = (.ok (Text.trim t), s') := by
  have hwritten : Rule.written ⟨startNonterminal, texts.map Sentence.escape⟩ ≠ [] := List.cons_ne_nil _ _
  have hline := GrammarLine.ofText_line hwritten (escaped_oneLine hverbatim) (escaped_uncommented hverbatim)
  have hback : ∀ t ∈ texts, .char '\\' ∉ Text.trim t :=
    fun t ht hm => (hverbatim t ht).unescaped ((Text.trim_sublist t).subset hm)
  have hfull : texts.map (fun t => Sentence.escape (Text.trim t)) ≠ [] := by simpa using hne
  have hsettled : ∀ a ∈ texts.map (fun t => Sentence.escape (Text.trim t)), Settled a := by
    intro a ha
    obtain ⟨t, ht, rfl⟩ := List.mem_map.mp ha
    exact Sentence.settled_escape (hback t ht)
  obtain ⟨g, hparse, hrules⟩ :=
    parse_rule hline (read?_escaped hverbatim hne hblank) hfull rfl hsettled path name requireStart
  have halternatives : g.rules.alternativesFor startNonterminal = texts.map fun t => Sentence.escape (Text.trim t) := by
    rw [hrules, Rules.alternativesFor_cons_self, if_neg hfull]
  have hterminal : ∀ a ∈ g.rules.alternativesFor startNonterminal, .char '$' ∉ a := by
    rw [halternatives]
    intro a ha hm
    obtain ⟨t, ht, rfl⟩ := List.mem_map.mp ha
    rcases Sentence.mem_escape hm with h | h
    · cases h
    · exact (hverbatim t ht).terminal ((Text.trim_sublist t).subset h)
  refine ⟨g, hparse, by rw [hrules]; rfl, fun σ _ s => ?_, fun t ht => ?_⟩
  · have hmem : (Sentence.pick g.rules startNonterminal s).1 ∈ g.rules.alternativesFor startNonterminal :=
      Sentence.pick_mem startNonterminal s
    rw [halternatives] at hmem
    obtain ⟨t, ht, he⟩ := List.mem_map.mp hmem
    refine ⟨t, ht, (Sentence.pick g.rules startNonterminal s).2, ?_⟩
    rw [Sentence.draw_terminal hterminal, ← he, Sentence.unescape_escape]
  · have hmem : Sentence.escape (Text.trim t) ∈ g.rules.alternativesFor startNonterminal := by
      rw [halternatives]
      exact List.mem_map_of_mem ht
    obtain ⟨ks, hks⟩ := Sentence.exists_pick hmem
    refine ⟨⟨ks ++ []⟩, ⟨[]⟩, ?_⟩
    rw [Sentence.draw_terminal hterminal, hks, Sentence.unescape_escape]

/-- A bracket that is not closed, a pair of them that is not opened, and nothing but a blank. -/
def riddles : List Text := [" (a|b".text, "c)) | d ".text, " ".text]

theorem riddles_verbatim : ∀ t ∈ riddles, Sentence.Verbatim t := by
  have hcharacters : ∀ t ∈ riddles, ∀ c ∈ t, c ≠ .char '\\' ∧ c ≠ .char '$' ∧ c ≠ .char '/' ∧
      GrammarLine.isCommentMark c = false ∧ Text.isLineBreak c = false := by decide
  intro t ht
  have hslash : .char '/' ∉ t := fun hm => (hcharacters t ht _ hm).2.2.1 rfl
  exact {
    unescaped := fun hm => (hcharacters t ht _ hm).1 rfl
    terminal := fun hm => (hcharacters t ht _ hm).2.1 rfl
    unmarked := fun c hc => (hcharacters t ht c hc).2.2.2.1
    noLineComment := fun hinside => hslash (hinside.subset List.mem_cons_self)
    noBlockComment := fun hinside => hslash (hinside.subset List.mem_cons_self)
    oneLine := fun c hc => (hcharacters t ht c hc).2.2.2.2 }

theorem escaped_drawn_riddles :
    Rule.written ⟨startNonterminal, riddles.map Sentence.escape⟩ = "$Main =  \\(a\\|b | c\\)\\) \\| d  |  ".text ∧
      ∃ g, (parse ⟨[], "/".text, []⟩ (Rule.written ⟨startNonterminal, riddles.map Sentence.escape⟩) none none true).run [] =
          (.ok g, []) ∧
        (∀ s : Script, ∃ t ∈ riddles, ∃ s', (Sentence.draw g.rules).run s = (.ok (Text.trim t), s')) ∧
        ∃ s s' : Script, (Sentence.draw g.rules).run s = (.ok "c)) | d".text, s') := by
  refine ⟨by decide, ?_⟩
  obtain ⟨g, hparse, -, hdrawn, heach⟩ := escaped_drawn ⟨[], "/".text, []⟩ none none true []
    (by decide) riddles_verbatim (by rintro t ⟨⟩)
  exact ⟨g, hparse, hdrawn Script, heach "c)) | d ".text (by decide)⟩

end Grammar

end Errand
