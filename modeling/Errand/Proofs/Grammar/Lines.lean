/-
  Errand.Proofs.Grammar.Lines — a grammar in one line.

  A line in which no comment begins is code from end to end (`ofText_line`). If that code is a
  rule with nothing in it to expand, the grammar has this rule and no other one, wherever the
  text comes from (`parse_rule`).
-/

import Errand.Proofs.Grammar.Folders
import Errand.Proofs.Grammar.Segments
import Errand.Proofs.Grammar.Settling
import Mathlib.Data.List.Chain

namespace Errand

/-! ## One line of code -/

theorem Text.lines_eq_singleton {t : Text} (hne : t ≠ []) (h : ∀ c ∈ t, isLineBreak c = false) : lines t = [t] := by
  induction t with
  | nil => exact absurd rfl hne
  | cons c t ih =>
    obtain ⟨hc, ht⟩ := List.forall_mem_cons.mp h
    rw [lines]
    · cases t with
      | nil => simp [hc, lines]
      | cons d t => simp [hc, ih (List.cons_ne_nil _ _) ht]
    · rintro rest rfl
      cases hc

namespace GrammarLine

/-- Two characters that begin a comment together. -/
def OpensComment (a b : CodePoint) : Prop := a = '/' ∧ (b = '/' ∨ b = '*')

instance (a b : CodePoint) : Decidable (OpensComment a b) := inferInstanceAs (Decidable (_ ∧ _))

/-- A text in which no comment begins. -/
structure Uncommented (t : Text) : Prop where
  unmarked : ∀ c ∈ t, isCommentMark c = false
  unopened : t.IsChain fun a b => ¬OpensComment a b

theorem scan_uncommented {t : Text} (h : Uncommented t) : scan false t = ⟨t, none, false⟩ := by
  induction t with
  | nil => rfl
  | cons c t ih =>
    obtain ⟨hc, ht⟩ := List.forall_mem_cons.mp h.unmarked
    obtain ⟨hpair, hchain⟩ := List.isChain_cons.mp h.unopened
    rw [scan, hc, ih ⟨ht, hchain⟩]
    · rfl
    · rintro rest rfl rfl
      exact hpair _ rfl ⟨rfl, Or.inl rfl⟩
    · rintro rest rfl rfl
      exact hpair _ rfl ⟨rfl, Or.inr rfl⟩

theorem Uncommented.trim {t : Text} (h : Uncommented t) : Uncommented (Text.trim t) := by
  obtain ⟨left, right, ht, -, -⟩ := Text.exists_trim t
  exact ⟨fun c hc => h.unmarked c ((Text.trim_sublist t).subset hc), h.unopened.infix ⟨left, right, ht.symm⟩⟩

/-- A line without a comment is code from end to end. -/
theorem ofText_line {t : Text} (hne : t ≠ []) (hline : ∀ c ∈ t, Text.isLineBreak c = false) (h : Uncommented t) :
    ofText t = [⟨Text.trim t, none⟩] := by
  rw [ofText, Text.lines_eq_singleton hne hline, ofLines, scan_uncommented h.trim, Text.trim_trim]
  rfl

end GrammarLine

/-- A rule for the start nonterminal is read from its line. -/
theorem Rule.read?_start {u : Text} (hne : Text.trim u ≠ []) (hline : .char '\n' ∉ u) :
    read? (Text.trim (startNonterminal ++ " = ".text ++ u)) = some ⟨startNonterminal, alternativesIn u⟩ := by
  obtain ⟨left, right, hu, hleft, hright⟩ := Text.exists_trim u
  have htrimmed := Text.trim_trimmed u
  have htrim : Text.trim (startNonterminal ++ " = ".text ++ u) = startNonterminal ++ " = ".text ++ left ++ Text.trim u := by
    have hends : Text.Trimmed (startNonterminal ++ " = ".text ++ left ++ Text.trim u) := by
      refine ⟨fun c hc => ?_, fun c hc => htrimmed.2 c ?_⟩
      · cases hc
        decide
      · rwa [List.getLast?_append_of_ne_nil _ hne] at hc
    have hcut := Text.trim_append (List.forall_mem_nil _) hends hright
    rwa [List.nil_append, List.append_assoc, List.append_assoc, ← List.append_assoc left, ← hu] at hcut
  have hbody : Text.trimLeft (.char ' ' :: (left ++ Text.trim u)) = Text.trim u := by
    have hblank : ∀ c ∈ CodePoint.char ' ' :: left, Text.isBlank c = true := List.forall_mem_cons.mpr ⟨by decide, hleft⟩
    rw [Text.trimLeft, ← List.cons_append, List.dropWhile_append_of_pos hblank, Text.dropWhile_of_head htrimmed.1]
  have hnobreak : ∀ c ∈ Text.trim u, (c != CodePoint.char '\n') = true := by
    intro c hc
    rw [bne_iff_ne]
    rintro rfl
    exact hline ((Text.trim_sublist u).subset hc)
  -- the name and the sign are characters, so this much is computed
  have hread : read? (startNonterminal ++ " = ".text ++ left ++ Text.trim u) =
      (let rest := Text.trimLeft (.char ' ' :: (left ++ Text.trim u))
      let body := Text.trim (rest.takeWhile (· != CodePoint.char '\n'))
      let after := rest.dropWhile (· != CodePoint.char '\n')
      if ("Main".text).isEmpty || body.isEmpty || !(after.isEmpty || after = "\n".text) then none
      else some ⟨startNonterminal, alternativesIn body⟩) := rfl
  rw [htrim, hread]
  simp only [hbody, List.takeWhile_eq_self_iff.mpr hnobreak, List.dropWhile_eq_nil_iff.mpr hnobreak, Text.trim_trim]
  rw [if_neg (by simp [hne]; decide), alternativesIn_trim]

/-! ## Texts put together -/

theorem Text.forall_mem_join {P : CodePoint → Prop} {separator : Text} {parts : List Text} (hseparator : ∀ c ∈ separator, P c)
    (hparts : ∀ p ∈ parts, ∀ c ∈ p, P c) : ∀ c ∈ join separator parts, P c := by
  induction parts with
  | nil => exact fun c hc => by cases hc
  | cons p parts ih =>
    obtain ⟨hp, hrest⟩ := List.forall_mem_cons.mp hparts
    cases parts with
    | nil => rwa [join_singleton]
    | cons q parts =>
      rw [join_cons_cons]
      exact List.forall_mem_append.mpr ⟨List.forall_mem_append.mpr ⟨hp, hseparator⟩, ih hrest⟩

namespace GrammarLine

theorem Uncommented.append {s t : Text} (hs : Uncommented s) (ht : Uncommented t)
    (hbetween : ∀ a ∈ s.getLast?, ∀ b ∈ t.head?, ¬OpensComment a b) : Uncommented (s ++ t) :=
  ⟨List.forall_mem_append.mpr ⟨hs.unmarked, ht.unmarked⟩, List.isChain_append.mpr ⟨hs.unopened, ht.unopened, hbetween⟩⟩

/-- Texts with a bar and blanks between them begin no comment if they do not on their own. -/
theorem uncommented_join {texts : List Text} (h : ∀ t ∈ texts, Uncommented t) : Uncommented (Text.join " | ".text texts) := by
  have hbar : Uncommented " | ".text := ⟨by decide, by decide⟩
  induction texts with
  | nil => exact ⟨by simp [Text.join], by simp [Text.join]⟩
  | cons t texts ih =>
    obtain ⟨ht, hrest⟩ := List.forall_mem_cons.mp h
    cases texts with
    | nil => rwa [Text.join_singleton]
    | cons t' texts =>
      rw [Text.join_cons_cons]
      refine (ht.append hbar ?_).append (ih hrest) ?_
      · rintro a - b hb ⟨-, hpair⟩
        cases hb
        revert hpair
        decide
      · rintro a ha b - ⟨hslash, -⟩
        rw [List.getLast?_append_of_ne_nil _ (by decide)] at ha
        cases ha
        revert hslash
        decide

end GrammarLine

/-! ## The grammar of a line -/

namespace Grammar
variable {d : Disk} {log : Log}

section
variable {t code : Text} {rule : Rule} (hline : GrammarLine.ofText t = [⟨code, none⟩])
  (hrule : Rule.read? code = some rule) (hfull : rule.alternatives ≠ [])
include hline hrule hfull

theorem readLines_rule (readFile : List Text → Text → Reading Contents) (loading : List Text) (path : Option Text) :
    (readLines d readFile loading path t).run log = (.ok ⟨none, .unknown, [rule]⟩, log) := by
  have hmerge : Rules.merge [] rule = [rule] := by
    rw [Rules.merge, if_neg (by simpa using hfull)]
    rfl
  have hstate : Contents.empty.state code = ⟨none, .unknown, [rule]⟩ := by
    rw [Contents.state, hrule]
    exact congrArg _ hmerge
  rw [← hstate]
  simp only [readLines, hline]
  rfl

/-- What a text of one line with a rule and no comment is read as. -/
theorem read_rule (path : Option Text) : (read d path t).run log = (.ok ⟨none, .unknown, [rule]⟩, log) := by
  rw [read]
  cases Disk.pathCount with
  | zero =>
    rw [readWithin]
    exact readLines_rule hline hrule hfull _ _ _
  | succ depth =>
    rw [readWithin]
    exact readLines_rule hline hrule hfull _ _ _

/-- The grammar of a text of one line with a rule in which there is nothing to expand. -/
theorem parse_rule (hstart : rule.nonterminal = startNonterminal) (hsettled : ∀ a ∈ rule.alternatives, Settled a)
    (path name : Option Text) (requireStart : Bool) :
    ∃ g, (parse d t path name requireStart).run log = (.ok g, log) ∧ g.rules = [rule] := by
  have hexpanded : Rules.expanded [rule] = [rule] :=
    Rules.expandFrom_of_settled [] [rule] (List.forall_mem_singleton.mpr hsettled)
  have hread : (ExceptT.adapt GrammarFault.disk (read d (path.filter (!·.isEmpty)) t)).run log =
      (.ok ⟨none, .unknown, [rule]⟩, log) := by
    rw [run_adapt, read_rule hline hrule hfull]
    rfl
  rw [parse, run_bind_ok hread]
  extract_lets _ _ g finish
  have hrules : g.rules = [rule] := hexpanded
  have hhas : g.hasStart = true := by
    rw [hasStart, hrules, Rules.find?, List.find?_cons_of_pos (by simpa using hstart)]
    rfl
  rw [hhas]
  refine ⟨g, ?_, hrules⟩
  cases requireStart <;> rfl

end

end Grammar

end Errand
