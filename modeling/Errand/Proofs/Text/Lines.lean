/-
  Errand.Proofs.Text.Lines — a line in its text.

  A text with a line in it is what stands in front, the line, and what stands behind it
  (`LineAt`); every line of a text has such a place (`exists_lineAt`). Another line put there
  is the only thing to change about the lines of the text (`LineAt.lines_eq`), if a line is
  left at all and no carriage return and line feed come together.
-/

import Errand.Text.Basic
import Mathlib.Data.List.Basic

namespace Errand.Text

variable {c : CodePoint} {t front line back : Text}

/-! ## One character in front -/

theorem lines_cons_break (hc : isLineBreak c = true) (h : c = '\r' → t.head? ≠ some '\n') :
    lines (c :: t) = [] :: lines t := by
  rw [lines, if_pos hc]
  rintro rest rfl rfl
  exact h rfl rfl

theorem lines_cons_plain (hc : isLineBreak c = false) : lines (c :: t) = (c :: (lines t).headD []) :: (lines t).tail := by
  rw [lines, if_neg (by simp [hc])]
  · cases lines t <;> rfl
  · rintro rest rfl
    cases hc

theorem lines_eq_nil (h : lines t = []) : t = [] := by
  cases t with
  | nil => rfl
  | cons c t =>
    rw [lines.eq_def] at h
    split at h
    · assumption
    · cases h
    · split at h
      · cases h
      · split at h <;> cases h

/-! ## Whole lines in front -/

/-- Lines with their breaks, and a text behind them that does not finish the last break. -/
theorem lines_append {rest : Text} (hwhole : ∀ c ∈ front.getLast?, isLineBreak c = true)
    (hapart : front.getLast? = some '\r' → rest.head? ≠ some '\n') : lines (front ++ rest) = lines front ++ lines rest := by
  fun_induction lines front with
  | case1 => rfl
  | case2 front ih =>
    show [] :: lines (front ++ rest) = [] :: (lines front ++ lines rest)
    rw [ih (fun c hc => hwhole c (List.mem_getLast?_cons (List.mem_getLast?_cons hc)))
      (fun h => hapart (List.mem_getLast?_cons (List.mem_getLast?_cons h)))]
  | case3 c front hcrlf hc ih =>
    rw [List.cons_append, lines_cons_break hc, ih (fun d hd => hwhole d (List.mem_getLast?_cons hd))
      (fun h => hapart (List.mem_getLast?_cons h))]
    · rfl
    · rintro rfl
      cases front with
      | nil => exact hapart rfl
      | cons d front =>
        intro h
        cases h
        exact hcrlf front rfl rfl
  | case4 c front hcrlf hc hnone ih =>
    -- a text that ends in a break does not end in this character
    rw [lines_eq_nil hnone] at hwhole
    exact absurd (hwhole c rfl) hc
  | case5 c front hcrlf hc l more hsome ih =>
    rw [List.cons_append, lines_cons_plain (Bool.eq_false_iff.mpr hc), ih (fun d hd => hwhole d (List.mem_getLast?_cons hd))
      (fun h => hapart (List.mem_getLast?_cons h)), hsome]
    rfl

/-! ## A line in its place -/

/-- What stands behind the line break that a text begins with. -/
def dropBreak : Text → Text
  | .char '\r' :: .char '\n' :: rest => rest
  | rest => rest.tail

/-- In front of a line stand whole lines, behind it its break, if it has one, and all further
    lines. -/
structure LineAt (front line back : Text) : Prop where
  whole : ∀ c ∈ front.getLast?, isLineBreak c = true
  unbroken : ∀ c ∈ line, isLineBreak c = false
  ends : ∀ c ∈ back.head?, isLineBreak c = true
  /-- Nothing at all behind the last break is no line. -/
  present : line ++ back ≠ []
  /-- No place between a carriage return and its line feed is one for a line. -/
  apart : front.getLast? = some '\r' → (line ++ back).head? ≠ some '\n'

theorem lines_broken (hends : ∀ c ∈ back.head?, isLineBreak c = true) (hpresent : back ≠ []) :
    lines back = [] :: lines (dropBreak back) := by
  unfold dropBreak
  split
  · rfl
  · rename_i hcrlf
    obtain ⟨c, rest, rfl⟩ := List.exists_cons_of_ne_nil hpresent
    refine lines_cons_break (hends c rfl) ?_
    rintro rfl
    cases rest with
    | nil => exact fun h => by cases h
    | cons d rest =>
      intro h
      cases h
      exact hcrlf rest rfl

theorem lines_line (hunbroken : ∀ c ∈ line, isLineBreak c = false) (hends : ∀ c ∈ back.head?, isLineBreak c = true)
    (hpresent : line ++ back ≠ []) : lines (line ++ back) = line :: lines (dropBreak back) := by
  induction line with
  | nil => exact lines_broken hends hpresent
  | cons c line ih =>
    obtain ⟨hc, hline⟩ := List.forall_mem_cons.mp hunbroken
    rw [List.cons_append, lines_cons_plain hc]
    by_cases hmore : line ++ back = []
    · obtain ⟨rfl, rfl⟩ := List.append_eq_nil_iff.mp hmore
      rfl
    · rw [ih hline hmore]
      rfl

/-- The line is one of the lines of the text, with the lines in front of it before and the lines
    behind its break after it. -/
theorem LineAt.lines_eq (h : LineAt front line back) :
    lines (front ++ line ++ back) = lines front ++ line :: lines (dropBreak back) := by
  rw [List.append_assoc, lines_append h.whole h.apart, lines_line h.unbroken h.ends h.present]

/-- Another line at the same place. -/
theorem LineAt.replace {new : Text} (h : LineAt front line back) (hne : new ≠ [])
    (hnew : ∀ c ∈ new, isLineBreak c = false) : LineAt front new back := by
  refine ⟨h.whole, hnew, h.ends, fun hnil => hne (List.append_eq_nil_iff.mp hnil).1, fun _ hhead => ?_⟩
  obtain ⟨c, new, rfl⟩ := List.exists_cons_of_ne_nil hne
  cases hhead
  exact Bool.noConfusion (hnew _ List.mem_cons_self)

/-- The first line of a text. -/
theorem lineAt_start (hunbroken : ∀ c ∈ line, isLineBreak c = false) (hends : ∀ c ∈ back.head?, isLineBreak c = true)
    (hpresent : line ++ back ≠ []) : LineAt [] line back :=
  ⟨fun c hc => (by cases hc), hunbroken, hends, hpresent, fun h => (by cases h)⟩

theorem lineAt_break {c : CodePoint} (hc : isLineBreak c = true) (rest : Text) : LineAt [] [] (c :: rest) := by
  refine lineAt_start (fun d hd => by cases hd) (fun d hd => ?_) (List.cons_ne_nil _ _)
  cases hd
  exact hc

/-- One character more in front; if it is the only one, it has to end a line. -/
theorem LineAt.cons (h : LineAt front line back)
    (hc : front = [] → isLineBreak c = true ∧ (c = '\r' → (line ++ back).head? ≠ some '\n')) :
    LineAt (c :: front) line back := by
  cases front with
  | nil =>
    obtain ⟨hbreak, hapart⟩ := hc rfl
    refine ⟨fun d hd => ?_, h.unbroken, h.ends, h.present, fun hlast => hapart (Option.some.inj hlast)⟩
    cases hd
    exact hbreak
  | cons d front =>
    refine ⟨?_, h.unbroken, h.ends, h.present, ?_⟩
    · rw [List.getLast?_cons_cons]
      exact h.whole
    · rw [List.getLast?_cons_cons]
      exact h.apart

/-- Every line of a text has its place. -/
theorem exists_lineAt {n : Nat} (h : (lines t)[n]? = some line) :
    ∃ front back, t = front ++ line ++ back ∧ LineAt front line back ∧ (lines front).length = n := by
  fun_induction lines t generalizing n line with
  | case1 => cases h
  | case2 rest ih =>
    cases n with
    | zero =>
      cases h
      exact ⟨[], _, rfl, lineAt_break rfl _, rfl⟩
    | succ n =>
      obtain ⟨front, back, rfl, hat, hn⟩ := ih h
      have hfeed : LineAt (.char '\n' :: front) line back := hat.cons fun _ => ⟨rfl, fun hreturn => by cases hreturn⟩
      have hreturn : LineAt (.char '\r' :: .char '\n' :: front) line back := hfeed.cons fun hnil => by cases hnil
      exact ⟨_, back, rfl, hreturn, congrArg Nat.succ hn⟩
  | case3 c rest hcrlf hc ih =>
    cases n with
    | zero =>
      cases h
      exact ⟨[], _, rfl, lineAt_break hc _, rfl⟩
    | succ n =>
      obtain ⟨front, back, rfl, hat, hn⟩ := ih h
      have hapart (hreturn : c = '\r') (more : Text) : front ++ line ++ back ≠ .char '\n' :: more :=
        fun hfeed => hcrlf more hreturn hfeed
      refine ⟨_, back, rfl, hat.cons fun hnil => ⟨hc, fun hreturn hhead => ?_⟩, ?_⟩
      · rw [hnil] at hapart
        obtain ⟨more, hmore⟩ := List.head?_eq_some_iff.mp hhead
        exact hapart hreturn more hmore
      · rw [lines_cons_break hc, List.length_cons, hn]
        intro hreturn hhead
        obtain ⟨more, rfl⟩ := List.head?_eq_some_iff.mp hhead
        exact hapart hreturn _ rfl
  | case4 c rest hcrlf hc hnone ih =>
    obtain rfl := lines_eq_nil hnone
    cases n with
    | zero =>
      cases h
      have hunbroken : ∀ d ∈ [c], isLineBreak d = false := List.forall_mem_singleton.mpr (Bool.eq_false_iff.mpr hc)
      exact ⟨[], [], rfl, lineAt_start hunbroken (fun d hd => by cases hd) (List.cons_ne_nil _ _), rfl⟩
    | succ n => cases h
  | case5 c rest hcrlf hc l more hsome ih =>
    rw [hsome] at ih
    cases n with
    | zero =>
      cases h
      obtain ⟨front, back, rfl, hat, hn⟩ := ih (n := 0) rfl
      obtain rfl := lines_eq_nil (List.length_eq_zero_iff.mp hn)
      have hunbroken : ∀ d ∈ c :: l, isLineBreak d = false :=
        List.forall_mem_cons.mpr ⟨Bool.eq_false_iff.mpr hc, hat.unbroken⟩
      exact ⟨[], back, rfl, lineAt_start hunbroken hat.ends (List.cons_ne_nil _ _), rfl⟩
    | succ n =>
      obtain ⟨front, back, rfl, hat, hn⟩ := ih (n := n + 1) h
      refine ⟨_, back, rfl, hat.cons fun hnil => ?_, ?_⟩
      · rw [hnil] at hn
        cases hn
      · rw [lines_cons_plain (Bool.eq_false_iff.mpr hc), List.length_cons, List.length_tail, hn]
        rfl

end Errand.Text
