/-
  Errand.Proofs.Text.Splitting — where a text is split, and where it is not.

  How a text is split depends on two things at each of its places: inside how many pairs the place
  is, and whether a backslash takes the next character out of play (`Standing`). Both can be kept
  one character at a time, a backslash at the very end included, and give the same segments
  (`splitFrom_eq_segments`). A text is split at each separator that is met at the standing
  which the text began with, and nowhere else (`mem_boundaries_iff`). Each segment then ends
  as it began, but for the last, and is not split again (`Segmented`).

  `closing?` keeps a depth of its own. As long as it has not come to the bracket that it looks for,
  the splitter is inside the pair as well (`staysInside_of_closingFrom`).

  - `split_outside`: the segments with separators between are the text, no segment is split again,
    and between a bracket and the one that `closing?` finds for it there is no boundary.
-/

import Errand.Proofs.Text.Balance

namespace Errand.Bracket

/-- Three different characters, and none of them is the backslash. -/
structure Apart (separator : CodePoint) (p : Pair) : Prop where
  pair : p.Proper
  backslash : separator ≠ .char '\\'
  opening : separator ≠ p.opening
  closing : separator ≠ p.closing

theorem apart_bar : Apart '|' .round := ⟨Pair.round_proper, by decide, by decide, by decide⟩

/-! ## Places between characters -/

/-- What a splitter knows at a place of a text. -/
structure Standing where
  /-- How many pairs the place is inside of. -/
  depth : Nat
  /-- The next character is out of play. -/
  escaped : Bool
  deriving DecidableEq, Repr

namespace Standing

/-- Outside of all pairs, and the next character counts. -/
def start : Standing := ⟨0, false⟩

/-- The standing behind one more character. -/
def step (p : Pair) (s : Standing) (c : CodePoint) : Standing where
  depth :=
    if s.escaped then s.depth
    else if c = p.opening then s.depth + 1
    else if c = p.closing then s.depth - 1
    else s.depth
  escaped := !s.escaped && c == '\\'

/-- The standing behind a text. -/
def after (p : Pair) (s : Standing) (t : Text) : Standing := t.foldl (step p) s

variable {p : Pair}

@[simp] theorem after_nil (s : Standing) : s.after p [] = s := rfl

@[simp] theorem after_cons (s : Standing) (c : CodePoint) (t : Text) :
    s.after p (c :: t) = (s.step p c).after p t := rfl

theorem after_append (s : Standing) (t u : Text) : s.after p (t ++ u) = (s.after p t).after p u :=
  List.foldl_append

theorem step_escaped (depth : Nat) (c : CodePoint) : step p ⟨depth, true⟩ c = ⟨depth, false⟩ := rfl

theorem step_backslash (hp : p.Proper) (depth : Nat) : step p ⟨depth, false⟩ '\\' = ⟨depth, true⟩ := by
  simp [step, hp.opening_ne.symm, hp.closing_ne.symm]

theorem step_opening (hp : p.Proper) (depth : Nat) : step p ⟨depth, false⟩ p.opening = ⟨depth + 1, false⟩ := by
  simp [step, hp.opening_ne]

theorem step_closing (hp : p.Proper) (depth : Nat) : step p ⟨depth, false⟩ p.closing = ⟨depth - 1, false⟩ := by
  simp [step, hp.closing_ne, hp.distinct]

/-- Behind a character that means nothing, no character is out of play. -/
theorem step_plain {c : CodePoint} (hbackslash : c ≠ .char '\\') (hopening : c ≠ p.opening)
    (hclosing : c ≠ p.closing) (s : Standing) : s.step p c = ⟨s.depth, false⟩ := by
  simp [step, hbackslash, hopening, hclosing]

/-- A balanced text makes no difference. -/
theorem after_balanced (hp : p.Proper) {b : Text} (hb : Balanced p b) (depth : Nat) :
    after p ⟨depth, false⟩ b = ⟨depth, false⟩ := by
  induction hb generalizing depth with
  | nil => rfl
  | escaped _ ih => rw [after_cons, after_cons, step_backslash hp, step_escaped, ih]
  | plain h₁ h₂ h₃ _ ih => rw [after_cons, step_plain h₁ h₂ h₃, ih]
  | pair _ _ ih₁ ih₂ =>
    rw [after_cons, step_opening hp, after_append, ih₁, after_cons, step_closing hp]
    exact ih₂ depth

end Standing

/-- Whether a text takes the character behind it out of play: it ends in a backslash that is not out
    of play itself. -/
def escapes (t : Text) : Bool := List.foldl (fun escaped c => !escaped && c == CodePoint.char '\\') false t

theorem escaped_after (p : Pair) (t : Text) : (Standing.start.after p t).escaped = escapes t := by
  have hfold : ∀ s : Standing, (s.after p t).escaped =
      List.foldl (fun escaped c => !escaped && c == CodePoint.char '\\') s.escaped t := by
    induction t with
    | nil =>
      intro s
      rfl
    | cons c t ih =>
      intro s
      exact ih (s.step p c)
  exact hfold .start

/-! ## Segments, one character at a time -/

/-- The segments of a text that begins at a standing. -/
def segments (separator : CodePoint) (p : Pair) : Standing → Text → Text × List Text
  | _, [] => ([], [])
  | s, c :: rest =>
    if c = separator ∧ s = .start then Text.startSegment (segments separator p (s.step p c) rest)
    else Text.consFirst c (segments separator p (s.step p c) rest)

section
variable {separator : CodePoint} {p : Pair}

theorem segments_cut {s : Standing} {c : CodePoint} (hc : c = separator ∧ s = .start) (t : Text) :
    segments separator p s (c :: t) = Text.startSegment (segments separator p (s.step p c) t) := if_pos hc

theorem segments_cons {s : Standing} {c : CodePoint} (hc : ¬(c = separator ∧ s = .start)) (t : Text) :
    segments separator p s (c :: t) = Text.consFirst c (segments separator p (s.step p c) t) := if_neg hc

theorem join_consFirst (glue a : Text) (c : CodePoint) (more : List Text) :
    Text.join glue ((c :: a) :: more) = c :: Text.join glue (a :: more) := by
  cases more with
  | nil => rw [Text.join_singleton, Text.join_singleton]
  | cons b more => rw [Text.join_cons_cons, Text.join_cons_cons, List.cons_append, List.cons_append]

/-- The segments with separators between are the text. -/
theorem join_segments (s : Standing) (t : Text) :
    Text.join [separator] ((segments separator p s t).1 :: (segments separator p s t).2) = t := by
  induction t generalizing s with
  | nil => rfl
  | cons c t ih =>
    by_cases hc : c = separator ∧ s = .start
    · rw [segments_cut hc, Text.startSegment, Text.join_cons_cons, ih, hc.1]
      rfl
    · rw [segments_cons hc, Text.consFirst, join_consFirst, ih]

/-! ## Texts of one segment -/

/-- A text that begins at a standing and is not split. -/
def Unsplit (separator : CodePoint) (p : Pair) (s : Standing) (t : Text) : Prop :=
  segments separator p s t = (t, [])

theorem unsplit_nil (s : Standing) : Unsplit separator p s [] := rfl

theorem unsplit_cons_iff {s : Standing} {c : CodePoint} {t : Text} : Unsplit separator p s (c :: t) ↔
    ¬(c = separator ∧ s = .start) ∧ Unsplit separator p (s.step p c) t := by
  unfold Unsplit
  by_cases hc : c = separator ∧ s = .start
  · rw [segments_cut hc]
    simp [hc, Text.startSegment]
  · rw [segments_cons hc]
    simp [hc, Text.consFirst, Prod.ext_iff]

/-- A text that is not split stays in front of the first segment of what is behind it. -/
theorem Unsplit.segments_append {s : Standing} {t : Text} (h : Unsplit separator p s t) (u : Text) :
    segments separator p s (t ++ u) =
      (t ++ (segments separator p (s.after p t) u).1, (segments separator p (s.after p t) u).2) := by
  induction t generalizing s with
  | nil => rfl
  | cons c t ih =>
    obtain ⟨hc, ht⟩ := unsplit_cons_iff.mp h
    rw [List.cons_append, segments_cons hc, ih ht]
    rfl

/-- A text cut into segments: none of them is split, and all but the last end where a separator
    splits. -/
inductive Segmented (separator : CodePoint) (p : Pair) : Standing → List Text → Prop
  | last {s : Standing} {t : Text} : Unsplit separator p s t → Segmented separator p s [t]
  | cut {s : Standing} {t : Text} {more : List Text} : Unsplit separator p s t → s.after p t = .start →
      Segmented separator p .start more → Segmented separator p s (t :: more)

theorem Segmented.cons {s : Standing} {c : CodePoint} {t : Text} {more : List Text}
    (hc : ¬(c = separator ∧ s = .start)) (h : Segmented separator p (s.step p c) (t :: more)) :
    Segmented separator p s ((c :: t) :: more) := by
  cases h with
  | last ht => exact .last (unsplit_cons_iff.mpr ⟨hc, ht⟩)
  | cut ht hend hmore => exact .cut (unsplit_cons_iff.mpr ⟨hc, ht⟩) hend hmore

theorem Segmented.unsplit {parts : List Text} (h : Segmented separator p .start parts) :
    ∀ part ∈ parts, Unsplit separator p .start part := by
  generalize hs : Standing.start = s at h
  induction h with
  | last ht =>
    subst hs
    simpa using ht
  | cut ht _ _ ih =>
    subst hs
    exact List.forall_mem_cons.mpr ⟨ht, ih rfl⟩

/-- All segments but the last end outside of all pairs. -/
theorem Segmented.after_dropLast {parts : List Text} (h : Segmented separator p .start parts) :
    ∀ part ∈ parts.dropLast, Standing.start.after p part = .start := by
  generalize hs : Standing.start = s at h
  induction h with
  | last _ =>
    intro part hpart
    cases hpart
  | @cut _ t more _ hend hmore ih =>
    subst hs
    cases more with
    | nil => cases hmore
    | cons next more =>
      rw [List.dropLast_cons_cons]
      exact List.forall_mem_cons.mpr ⟨hend, ih rfl⟩

/-! ## Where a text is split -/

/-- The places of the separators between segments. -/
def boundaries : List Text → List Nat
  | [] => []
  | [_] => []
  | part :: next :: more => part.length :: (boundaries (next :: more)).map (· + part.length + 1)

theorem mem_boundaries_consFirst {c : CodePoint} {first : Text} {more : List Text} {k : Nat} :
    k ∈ boundaries ((c :: first) :: more) ↔ ∃ k' ∈ boundaries (first :: more), k = k' + 1 := by
  cases more with
  | nil => simp [boundaries]
  | cons next more =>
    simp only [boundaries, List.length_cons, List.mem_cons, List.mem_map]
    constructor
    · intro hk
      rcases hk with rfl | ⟨k', hk', rfl⟩
      · exact ⟨first.length, Or.inl rfl, rfl⟩
      · exact ⟨k' + first.length + 1, Or.inr ⟨k', hk', rfl⟩, by omega⟩
    · intro ⟨k', hk', hk⟩
      rcases hk' with rfl | ⟨k'', hk'', rfl⟩
      · exact Or.inl hk
      · exact Or.inr ⟨k'', hk'', by omega⟩

theorem mem_boundaries_startSegment {first : Text} {more : List Text} {k : Nat} :
    k ∈ boundaries ([] :: first :: more) ↔ k = 0 ∨ ∃ k' ∈ boundaries (first :: more), k = k' + 1 := by
  simp only [boundaries, List.length_nil, List.mem_cons, List.mem_map, Nat.add_zero, eq_comm]

/-- A separator at the place `k` that is met outside of all pairs and in play. -/
def SplitAt (separator : CodePoint) (p : Pair) (s : Standing) (t : Text) (k : Nat) : Prop :=
  ∃ front behind, t = front ++ separator :: behind ∧ front.length = k ∧ s.after p front = .start

theorem splitAt_nil {s : Standing} {k : Nat} : ¬SplitAt separator p s [] k := by
  intro ⟨front, behind, ht, _⟩
  simp at ht

theorem splitAt_cons {s : Standing} {c : CodePoint} {t : Text} {k : Nat} : SplitAt separator p s (c :: t) k ↔
    (c = separator ∧ s = .start ∧ k = 0) ∨ ∃ k', SplitAt separator p (s.step p c) t k' ∧ k = k' + 1 := by
  constructor
  · intro ⟨front, behind, ht, hk, hfront⟩
    cases front with
    | nil =>
      cases ht
      exact Or.inl ⟨rfl, hfront, hk.symm⟩
    | cons d front =>
      cases ht
      exact Or.inr ⟨front.length, ⟨front, behind, rfl, rfl, hfront⟩, hk.symm⟩
  · intro hk
    rcases hk with ⟨rfl, hs, rfl⟩ | ⟨k', ⟨front, behind, rfl, rfl, hfront⟩, rfl⟩
    · exact ⟨[], t, rfl, rfl, hs⟩
    · exact ⟨c :: front, behind, rfl, rfl, hfront⟩

theorem mem_boundaries_segments (s : Standing) (t : Text) (k : Nat) :
    k ∈ boundaries ((segments separator p s t).1 :: (segments separator p s t).2) ↔ SplitAt separator p s t k := by
  induction t generalizing s k with
  | nil =>
    show k ∈ boundaries [[]] ↔ _
    simp [boundaries, splitAt_nil]
  | cons c t ih =>
    rw [splitAt_cons]
    by_cases hc : c = separator ∧ s = .start
    · rw [segments_cut hc, Text.startSegment, mem_boundaries_startSegment]
      simp only [ih, hc.1, hc.2, true_and]
    · rw [segments_cons hc, Text.consFirst, mem_boundaries_consFirst]
      simp only [ih, ← and_assoc, hc, false_and, false_or]

/-! ## Between two brackets -/

/-- A text that begins at a standing and at each of its places is deeper than `outer`. -/
def StaysInside (p : Pair) (outer : Nat) (s : Standing) (t : Text) : Prop :=
  ∀ front, front <+: t → outer < (s.after p front).depth

theorem staysInside_nil {outer : Nat} {s : Standing} (hs : outer < s.depth) : StaysInside p outer s [] := by
  intro front hfront
  rw [List.prefix_nil.mp hfront]
  exact hs

theorem StaysInside.cons {outer : Nat} {s : Standing} {c : CodePoint} {t : Text} (hs : outer < s.depth)
    (ht : StaysInside p outer (s.step p c) t) : StaysInside p outer s (c :: t) := by
  intro front hfront
  cases front with
  | nil => exact hs
  | cons d front =>
    obtain ⟨rfl, hrest⟩ := List.cons_prefix_cons.mp hfront
    exact ht front hrest

/-- What stands in front of the bracket that closes a pair is inside that pair. -/
theorem staysInside_of_closingFrom (hp : p.Proper) (outer : Nat) {depth : Nat} {t inside behind : Text}
    (hclosing : closingFrom p depth t = some (inside, behind)) :
    StaysInside p outer ⟨outer + depth + 1, false⟩ inside := by
  have hdeep : ∀ depth, outer < outer + depth + 1 := by
    intro depth
    omega
  fun_induction closingFrom p depth t generalizing inside behind with
  | case1 => cases hclosing
  | case2 => cases hclosing
  | case3 depth c rest ih =>
    obtain ⟨⟨inside', behind'⟩, hrest, he⟩ := Option.map_eq_some_iff.mp hclosing
    cases he
    refine .cons (hdeep depth) (.cons ?_ ?_)
    · rw [Standing.step_backslash hp]
      exact hdeep depth
    · rw [Standing.step_backslash hp]
      exact ih hrest
  | case4 depth rest _ _ ih =>
    obtain ⟨⟨inside', behind'⟩, hrest, he⟩ := Option.map_eq_some_iff.mp hclosing
    cases he
    refine .cons (hdeep depth) ?_
    rw [Standing.step_opening hp]
    exact ih hrest
  | case5 =>
    cases hclosing
    exact staysInside_nil (hdeep 0)
  | case6 rest depth _ _ _ ih =>
    obtain ⟨⟨inside', behind'⟩, hrest, he⟩ := Option.map_eq_some_iff.mp hclosing
    cases he
    refine .cons (hdeep (depth + 1)) ?_
    rw [Standing.step_closing hp]
    exact ih hrest
  | case7 depth c rest hlast hbehind hopening hclose ih =>
    obtain ⟨⟨inside', behind'⟩, hrest, he⟩ := Option.map_eq_some_iff.mp hclosing
    cases he
    -- a backslash with something behind it is an escape, and behind the last one nothing closes
    have hbackslash : c ≠ .char '\\' := by
      intro e
      cases rest with
      | nil => exact hlast e rfl
      | cons d more => exact hbehind d more e rfl
    refine .cons (hdeep depth) ?_
    rw [Standing.step_plain hbackslash hopening hclose]
    exact ih hrest

/-! ## The segments of a text -/

variable (h : Apart separator p)
include h

theorem step_separator : Standing.start.step p separator = .start :=
  Standing.step_plain h.backslash h.opening h.closing .start

theorem splitFrom_eq_segments (depth : Nat) (t : Text) :
    splitFrom separator p depth t = segments separator p ⟨depth, false⟩ t := by
  fun_induction splitFrom separator p depth t with
  | case1 => rfl
  | case2 depth c rest ih =>
    rw [segments_cons (by simp [h.backslash.symm]), segments_cons (by simp [Standing.start, Standing.step]),
      Standing.step_backslash h.pair, Standing.step_escaped, ih]
  | case3 depth rest hc ih =>
    rw [segments_cons (by simp [h.opening.symm]), Standing.step_opening h.pair, ih]
  | case4 depth c rest hc hopening hclosing ih =>
    simp only [Bool.and_eq_true, decide_eq_true_eq] at hclosing
    obtain ⟨rfl, -⟩ := hclosing
    rw [segments_cons (by simp [h.closing.symm]), Standing.step_closing h.pair, ih]
  | case5 depth c rest hc hopening hclosing hseparator ih =>
    simp only [Bool.and_eq_true, decide_eq_true_eq, beq_iff_eq] at hseparator
    obtain ⟨rfl, rfl⟩ := hseparator
    rw [segments_cut (s := ⟨0, false⟩) ⟨rfl, rfl⟩, ih]
    exact congrArg (fun s => Text.startSegment (segments c p s rest)) (step_separator h).symm
  | case6 depth c rest hc hopening hclosing hseparator ih =>
    simp only [Bool.and_eq_true, decide_eq_true_eq, bne_iff_ne, beq_iff_eq, not_and] at hclosing hseparator
    rw [segments_cons (by simpa [Standing.start] using hseparator), ih]
    cases rest with
    | nil => rfl
    | cons d more =>
      -- a backslash with something behind it is an escape
      have hbackslash : c ≠ .char '\\' := fun e => hc d more e rfl
      by_cases e : c = p.closing
      · subst e
        have hdepth : depth = 0 := by simpa using hclosing rfl
        subst hdepth
        rw [Standing.step_closing h.pair]
      · rw [Standing.step_plain hbackslash hopening e]

theorem splitOutside_eq (t : Text) :
    splitOutside separator p t = (segments separator p .start t).1 :: (segments separator p .start t).2 := by
  rw [splitOutside, splitFrom_eq_segments h]
  rfl

theorem segmented_segments (s : Standing) (t : Text) :
    Segmented separator p s ((segments separator p s t).1 :: (segments separator p s t).2) := by
  induction t generalizing s with
  | nil => exact .last (unsplit_nil s)
  | cons c t ih =>
    by_cases hc : c = separator ∧ s = .start
    · have hrest := ih .start
      rw [segments_cut hc, hc.1, hc.2, step_separator h]
      exact .cut (unsplit_nil _) rfl hrest
    · rw [segments_cons hc]
      exact .cons hc (ih _)

theorem segmented_splitOutside (t : Text) : Segmented separator p .start (splitOutside separator p t) := by
  rw [splitOutside_eq h]
  exact segmented_segments h .start t

theorem join_splitOutside (t : Text) : Text.join [separator] (splitOutside separator p t) = t := by
  rw [splitOutside_eq h]
  exact join_segments .start t

theorem splitOutside_eq_singleton_iff {t : Text} :
    splitOutside separator p t = [t] ↔ Unsplit separator p .start t := by
  rw [splitOutside_eq h, Unsplit, Prod.ext_iff]
  simp

/-- No segment is split again. -/
theorem splitOutside_part {t part : Text} (hpart : part ∈ splitOutside separator p t) :
    splitOutside separator p part = [part] :=
  (splitOutside_eq_singleton_iff h).mpr ((segmented_splitOutside h t).unsplit part hpart)

/-- A text is split at the separators that stand outside of all pairs and in play. -/
theorem mem_boundaries_iff (t : Text) (k : Nat) :
    k ∈ boundaries (splitOutside separator p t) ↔ SplitAt separator p .start t k := by
  rw [splitOutside_eq h]
  exact mem_boundaries_segments .start t k

/-- If a text ends outside of all pairs, so does each of its segments. -/
theorem Segmented.depth_eq_zero {parts : List Text} (hparts : Segmented separator p .start parts)
    (hdepth : (Standing.start.after p (Text.join [separator] parts)).depth = 0) :
    ∀ part ∈ parts, (Standing.start.after p part).depth = 0 := by
  generalize hs : Standing.start = s at hparts
  induction hparts with
  | last _ =>
    subst hs
    rw [Text.join_singleton] at hdepth
    simpa using hdepth
  | @cut _ t more _ hend hmore ih =>
    subst hs
    cases more with
    | nil => cases hmore
    | cons next more =>
      rw [Text.join_cons_cons, Standing.after_append, Standing.after_append, hend, Standing.after_cons,
        step_separator h, Standing.after_nil] at hdepth
      refine List.forall_mem_cons.mpr ⟨?_, ih hdepth rfl⟩
      rw [hend]
      rfl

/-- No separator splits between an opening bracket and the one that closes it. -/
theorem not_splitAt_inside {front rest inside behind : Text} (hfront : escapes front = false)
    (hclosing : closing? p rest = some (inside, behind)) {k : Nat}
    (hk : SplitAt separator p .start (front ++ p.opening :: rest) k) :
    k < front.length + 1 ∨ front.length + 1 + inside.length < k := by
  obtain ⟨before, after, ht, rfl, hbefore⟩ := hk
  apply Decidable.by_contra
  intro hbetween
  rw [not_or, Nat.not_lt, Nat.not_lt] at hbetween
  -- the separator would stand behind the opening bracket, and what is between them be part of the inside
  have hopened : front ++ [p.opening] <+: front ++ p.opening :: rest := ⟨rest, by simp⟩
  have hsplit : before <+: front ++ p.opening :: rest := ⟨separator :: after, ht.symm⟩
  obtain ⟨u, rfl⟩ := List.prefix_of_prefix_length_le hopened hsplit (by simpa using hbetween.1)
  have hinside : inside <+: rest := ⟨p.closing :: behind, (closing?_eq hclosing).symm⟩
  have hrest : u <+: rest := ⟨separator :: after, by simpa using ht.symm⟩
  have hu : u <+: inside := by
    apply List.prefix_of_prefix_length_le hrest hinside
    have := hbetween.2
    simp only [List.length_append, List.length_singleton] at this
    omega
  have hstart : Standing.start.after p front = ⟨(Standing.start.after p front).depth + 0, false⟩ := by
    rw [← hfront, ← escaped_after p]
    rfl
  have hdepth := staysInside_of_closingFrom h.pair (Standing.start.after p front).depth hclosing u hu
  rw [Standing.after_append, Standing.after_append, hstart, Standing.after_cons, Standing.step_opening h.pair,
    Standing.after_nil] at hbefore
  rw [hbefore] at hdepth
  cases hdepth

end

/-- Splitting at the separators outside of all pairs loses nothing and leaves nothing to split. It
    splits at the separators that no pair is open around and that no backslash takes out of play, hence at
    none between an opening bracket and the bracket that is found for it. -/
theorem split_outside {separator : CodePoint} {p : Pair} (h : Apart separator p) (t : Text) :
    Text.join [separator] (splitOutside separator p t) = t ∧
    (∀ part ∈ splitOutside separator p t, splitOutside separator p part = [part]) ∧
    (∀ k, k ∈ boundaries (splitOutside separator p t) ↔ SplitAt separator p .start t k) ∧
    ∀ front rest inside behind, t = front ++ p.opening :: rest → escapes front = false →
      closing? p rest = some (inside, behind) →
      ∀ k ∈ boundaries (splitOutside separator p t),
        k < front.length + 1 ∨ front.length + 1 + inside.length < k := by
  refine ⟨join_splitOutside h t, ?_, mem_boundaries_iff h t, ?_⟩
  · intro part hpart
    exact splitOutside_part h hpart
  · intro front rest inside behind ht hfront hclosing k hk
    rw [mem_boundaries_iff h, ht] at hk
    exact not_splitAt_inside h hfront hclosing hk

/-- A bracket out of play, a separator and a closing bracket out of play inside a pair, and at the end a
    closing bracket of no pair and a backslash. -/
theorem split_outside_odd : Apart '|' .round ∧
    splitOutside '|' .round "a\\(|(b|\\)c)|)\\".text = ["a\\(".text, "(b|\\)c)".text, ")\\".text] ∧
      closing? .round "b|\\)c)|)\\".text = some ("b|\\)c".text, "|)\\".text) ∧
      (∀ k, k ∈ boundaries (splitOutside '|' .round "a\\(|(b|\\)c)|)\\".text) ↔
        SplitAt '|' .round .start "a\\(|(b|\\)c)|)\\".text k) ∧
      ∀ k ∈ boundaries (splitOutside '|' .round "a\\(|(b|\\)c)|)\\".text), k < 5 ∨ 10 < k := by
  have hclosing : closing? .round "b|\\)c)|)\\".text = some ("b|\\)c".text, "|)\\".text) := by decide
  obtain ⟨-, -, hboundaries, hinside⟩ := split_outside apart_bar "a\\(|(b|\\)c)|)\\".text
  exact ⟨apart_bar, by decide, hclosing, hboundaries, hinside "a\\(|".text _ _ _ rfl (by decide) hclosing⟩

end Errand.Bracket
