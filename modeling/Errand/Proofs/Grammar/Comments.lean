/-
  Errand.Proofs.Grammar.Comments — comments never change the code of a grammar.

  Reading a line goes on behind each place as it would after reading what stands in front of
  it (`scan_append`), unless the place is inside a mark of two characters. So a block comment
  put where the reading is in code changes nothing at all, and a comment up to the end of a
  line leaves the code of this line, and of every other one, as it is without the rest of the
  line (`comments_keep_code`). Trimming the line first makes no difference to that (`scan_trim`).
-/

import Errand.Grammar.Line
import Errand.Proofs.Text.Lines
import Errand.Proofs.Text.Trimming

namespace Errand.GrammarLine

open Text (LineAt isBlank isLineBreak lines)

variable {b : Bool} {t u left right : Text}

/-! ## One character in front -/

theorem scan_inside {c : CodePoint} (h : c = '*' → t.head? ≠ some '/') : scan true (c :: t) = scan true t := by
  rw [scan]
  rintro rest rfl rfl
  exact h rfl rfl

theorem scan_mark {c : CodePoint} (h : isCommentMark c = true) : scan false (c :: t) = ⟨[], some t, false⟩ := by
  rw [scan, if_pos h]
  all_goals
    rintro rest rfl
    cases h

theorem scan_plain {c : CodePoint} (hmark : isCommentMark c = false)
    (h : c = '/' → t.head? ≠ some '/' ∧ t.head? ≠ some '*') :
    scan false (c :: t) = ⟨c :: (scan false t).code, (scan false t).comment, (scan false t).inBlock⟩ := by
  rw [scan, if_neg (by simp [hmark])]
  · rintro rest rfl rfl
    exact (h rfl).1 rfl
  · rintro rest rfl rfl
    exact (h rfl).2 rfl

/-! ## Reading on behind a place -/

/-- What is read when more stands behind what was read. -/
def Scan.before (s : Scan) (u : Text) : Scan :=
  match s.comment with
  | some comment => ⟨s.code, some (comment ++ u), s.inBlock⟩
  | none => ⟨s.code ++ (scan s.inBlock u).code, (scan s.inBlock u).comment, (scan s.inBlock u).inBlock⟩

/-- No mark of two characters begins at the end of the first text and ends in the second one. A star
    and a slash are a mark only inside a block comment. -/
structure Apart (b : Bool) (left u : Text) : Prop where
  opening : left.getLast? = some '/' → u.head? ≠ some '/' ∧ u.head? ≠ some '*'
  closing : (scan b left).inBlock = true → left.getLast? = some '*' → u.head? ≠ some '/'

theorem scan_append (h : Apart b left u) : scan b (left ++ u) = (scan b left).before u := by
  obtain ⟨hopening, hclosing⟩ := h
  fun_induction scan b left with
  | case1 b =>
    rw [List.nil_append, Scan.before, List.nil_append]
  | case2 rest ih =>
    refine ih (fun h => hopening (List.mem_getLast?_cons (List.mem_getLast?_cons h))) fun hb h => ?_
    exact hclosing hb (List.mem_getLast?_cons (List.mem_getLast?_cons h))
  | case3 c rest hmark ih =>
    rw [List.cons_append, scan_inside]
    · exact ih (fun h => hopening (List.mem_getLast?_cons h)) fun hb h => hclosing hb (List.mem_getLast?_cons h)
    · rintro rfl
      cases rest with
      | nil => exact hclosing rfl rfl
      | cons d rest =>
        intro h
        cases h
        exact hmark rest rfl rfl
  | case4 rest => rfl
  | case5 rest ih =>
    refine ih (fun h => hopening (List.mem_getLast?_cons (List.mem_getLast?_cons h))) fun hb h => ?_
    exact hclosing hb (List.mem_getLast?_cons (List.mem_getLast?_cons h))
  | case6 c rest _ _ hmark =>
    rw [List.cons_append, scan_mark hmark]
    rfl
  | case7 c rest hslash hstar hmark s ih =>
    have hbehind := ih (fun h => hopening (List.mem_getLast?_cons h)) fun hb h => hclosing hb (List.mem_getLast?_cons h)
    rw [List.cons_append, scan_plain (Bool.eq_false_iff.mpr hmark), hbehind]
    · unfold Scan.before
      cases s.comment <;> rfl
    · rintro rfl
      cases rest with
      | nil => exact hopening rfl
      | cons d rest =>
        constructor
        · intro h
          cases h
          exact hslash rest rfl rfl
        · intro h
          cases h
          exact hstar rest rfl rfl

/-! ## Blanks at the ends of a line -/

theorem not_mark_of_isBlank {c : CodePoint} (hc : isBlank c = true) : isCommentMark c = false ∧ c ≠ '/' ∧ c ≠ '*' := by
  refine ⟨Bool.eq_false_iff.mpr fun hmark => ?_, ?_, ?_⟩
  · simp only [isCommentMark, Bool.or_eq_true, beq_iff_eq] at hmark
    rcases hmark with (rfl | rfl) | rfl <;> cases hc
  · rintro rfl
    cases hc
  · rintro rfl
    cases hc

theorem scan_blanks (b : Bool) (h : ∀ c ∈ t, isBlank c = true) :
    (∀ c ∈ (scan b t).code, isBlank c = true) ∧ (scan b t).comment = none ∧ (scan b t).inBlock = b := by
  induction t with
  | nil => exact ⟨fun c hc => (by cases b <;> cases hc), by cases b <;> rfl, by cases b <;> rfl⟩
  | cons c t ih =>
    obtain ⟨hc, ht⟩ := List.forall_mem_cons.mp h
    obtain ⟨hmark, hslash, hstar⟩ := not_mark_of_isBlank hc
    obtain ⟨hcode, hrest⟩ := ih ht
    cases b with
    | true =>
      rw [scan_inside fun h => absurd h hstar]
      exact ⟨hcode, hrest⟩
    | false =>
      rw [scan_plain hmark fun h => absurd h hslash]
      exact ⟨List.forall_mem_cons.mpr ⟨hc, hcode⟩, hrest⟩

theorem apart_of_blanks (h : ∀ c ∈ left, isBlank c = true) : Apart b left u :=
  ⟨fun hlast => absurd rfl (not_mark_of_isBlank (h _ (List.mem_of_getLast? hlast))).2.1,
    fun _ hlast => absurd rfl (not_mark_of_isBlank (h _ (List.mem_of_getLast? hlast))).2.2⟩

theorem apart_blanks (h : ∀ c ∈ u, isBlank c = true) : Apart b left u := by
  have hhead {d : CodePoint} (hd : isBlank d = false) : u.head? ≠ some d := by
    intro hu
    rw [h d (List.mem_of_head? hu)] at hd
    cases hd
  exact ⟨fun _ => ⟨hhead rfl, hhead rfl⟩, fun _ _ => hhead rfl⟩

theorem comment_suffix {comment : Text} (h : (scan b t).comment = some comment) : comment <:+ t := by
  fun_induction scan b t with
  | case1 => cases h
  | case2 rest ih => exact (ih h).trans ((List.suffix_cons _ _).trans (List.suffix_cons _ _))
  | case3 c rest _ ih => exact (ih h).trans (List.suffix_cons _ _)
  | case4 rest =>
    cases h
    exact (List.suffix_cons _ _).trans (List.suffix_cons _ _)
  | case5 rest ih => exact (ih h).trans ((List.suffix_cons _ _).trans (List.suffix_cons _ _))
  | case6 c rest =>
    cases h
    exact List.suffix_cons _ _
  | case7 c rest _ _ _ s ih => exact (ih h).trans (List.suffix_cons _ _)

theorem Scan.before_blanks {s : Scan} (h : ∀ c ∈ u, isBlank c = true) : (s.before u).inBlock = s.inBlock ∧
    (s.before u).comment = s.comment.map (· ++ u) ∧
    ∃ more, (∀ c ∈ more, isBlank c = true) ∧ (s.before u).code = s.code ++ more := by
  obtain ⟨hcode, hcomment, hblock⟩ := scan_blanks s.inBlock h
  obtain ⟨code, comment, inBlock⟩ := s
  cases comment with
  | some comment => exact ⟨rfl, rfl, [], by simp, (List.append_nil _).symm⟩
  | none => exact ⟨hblock, hcomment, _, hcode, rfl⟩

/-- Trimming a line trims its comment at the end and leaves its code as it is, but for blanks at the ends. -/
theorem scan_trim (b : Bool) (t : Text) : (scan b (Text.trim t)).inBlock = (scan b t).inBlock ∧
    (scan b (Text.trim t)).comment = (scan b t).comment.map Text.trimRight ∧
    Text.trim (scan b (Text.trim t)).code = Text.trim (scan b t).code := by
  obtain ⟨left, right, ht, hleft, hright⟩ := Text.exists_trim t
  have htrimmed := Text.trim_trimmed t
  generalize Text.trim t = mid at ht htrimmed
  subst ht
  obtain ⟨hlcode, hlcomment, hlblock⟩ := scan_blanks b hleft
  obtain ⟨hrblock, hrcomment, more, hmore, hrcode⟩ := (scan b mid).before_blanks hright
  have hscan : scan b (left ++ mid ++ right) = ⟨(scan b left).code ++ ((scan b mid).before right).code,
      ((scan b mid).before right).comment, ((scan b mid).before right).inBlock⟩ := by
    rw [List.append_assoc, scan_append (apart_of_blanks hleft), Scan.before, hlcomment, hlblock,
      scan_append (apart_blanks hright)]
  rw [hscan]
  refine ⟨hrblock.symm, ?_, ?_⟩
  · rw [hrcomment, Option.map_map]
    cases hcomment : (scan b mid).comment with
    | none => rfl
    | some comment =>
      have hlast : ∀ c ∈ comment.getLast?, isBlank c = false := by
        obtain ⟨front, hfront⟩ := comment_suffix hcomment
        intro c hc
        refine htrimmed.2 c ?_
        rw [← hfront]
        exact List.mem_getLast?_append_of_mem_getLast? hc
      rw [Option.map_some, Function.comp_apply, Text.trimRight_blanks hlast hright]
  · rw [hrcode, ← List.append_assoc, Text.trim_blanks hlcode hmore]

/-! ## Lines -/

/-- A line read as it stands in the text. -/
theorem ofLines_cons (b : Bool) (t : Text) (more : List Text) : ofLines b (t :: more) =
    ⟨Text.trim (scan b t).code, (scan b t).comment.map Text.trimRight⟩ :: ofLines (scan b t).inBlock more := by
  obtain ⟨hblock, hcomment, hcode⟩ := scan_trim b t
  rw [ofLines, hblock, hcomment, hcode]

/-- Whether what stands behind these lines begins inside a block comment. -/
def blockBehind (b : Bool) (front : List Text) : Bool := front.foldl (fun b line => (scan b (Text.trim line)).inBlock) b

theorem ofLines_append (b : Bool) (front more : List Text) :
    ofLines b (front ++ more) = ofLines b front ++ ofLines (blockBehind b front) more := by
  induction front generalizing b with
  | nil => rfl
  | cons line front ih =>
    rw [List.cons_append, ofLines, ofLines, ih]
    rfl

/-- The lines with code, each with its number. -/
def codeLines (read : List GrammarLine) : List (Nat × Text) :=
  (read.zipIdx.filter fun (line, _) => !line.code.isEmpty).map fun (line, n) => (n, line.code)

theorem codeLines_eq (read : List GrammarLine) : codeLines read =
    ((read.map code).zipIdx.filter fun (code, _) => !code.isEmpty).map Prod.swap := by
  rw [codeLines, List.zipIdx_map, List.filter_map, List.map_map]
  rfl

/-- A last line without code is none of them. -/
theorem codeLines_append_empty (read : List GrammarLine) (comment : Option Text) :
    codeLines (read ++ [⟨[], comment⟩]) = codeLines read := by
  rw [codeLines, List.zipIdx_append, List.filter_append, List.map_append]
  exact List.append_nil _

/-! ## A place in the code -/

/-- In such a line the reading is in code behind this beginning of it: not in a comment, and not
    behind a slash, which could begin a mark. -/
structure Reached (b : Bool) (left : Text) : Prop where
  outside : (scan b left).inBlock = false
  uncommented : (scan b left).comment = none
  unslashed : left.getLast? ≠ some '/'

/-- Behind such a place a text is read on its own. -/
theorem Reached.scan_append (h : Reached b left) (u : Text) : scan b (left ++ u) =
    ⟨(scan b left).code ++ (scan false u).code, (scan false u).comment, (scan false u).inBlock⟩ := by
  have hapart : Apart b left u :=
    ⟨fun hlast => absurd hlast h.unslashed, fun hblock => by rw [h.outside] at hblock; cases hblock⟩
  rw [GrammarLine.scan_append hapart, Scan.before, h.uncommented, h.outside]

/-- A block comment ends at the first place where it can. -/
theorem scan_closed {c : Text} (hc : ¬"*/".text <:+: c) (right : Text) :
    scan true (c ++ "*/".text ++ right) = scan false right := by
  induction c with
  | nil => rfl
  | cons d c ih =>
    rw [List.cons_append, List.cons_append, scan_inside]
    · exact ih fun h => hc (h.trans (List.suffix_cons d c).isInfix)
    · rintro rfl hhead
      cases c with
      | nil => cases hhead
      | cons e c =>
        cases hhead
        exact hc ⟨[], c, rfl⟩

/-- A block comment in the code is not read at all. -/
theorem Reached.scan_block (h : Reached b left) {c : Text} (hc : ¬"*/".text <:+: c) (right : Text) :
    scan b (left ++ "/*".text ++ c ++ "*/".text ++ right) = scan b (left ++ right) := by
  have hopened : scan false ("/*".text ++ (c ++ "*/".text ++ right)) = scan true (c ++ "*/".text ++ right) := rfl
  rw [h.scan_append right, ← scan_closed hc right, ← hopened, ← h.scan_append]
  simp only [List.append_assoc]

/-- What begins a comment up to the end of the line. -/
def lineMarks : List Text := ["//".text, "#".text, ";".text, "%".text]

theorem scan_lineMark {mark : Text} (h : mark ∈ lineMarks) (c : Text) : scan false (mark ++ c) = ⟨[], some c, false⟩ := by
  simp only [lineMarks, List.mem_cons, List.not_mem_nil, or_false] at h
  rcases h with rfl | rfl | rfl | rfl <;> rfl

/-- Of a line with such a comment the code is read that the line has without it. -/
theorem Reached.scan_lineMark (h : Reached b left) {mark : Text} (hmark : mark ∈ lineMarks) (c : Text) :
    (scan b (left ++ mark ++ c)).code = (scan b left).code ∧
      (scan b (left ++ mark ++ c)).inBlock = (scan b left).inBlock := by
  rw [List.append_assoc, h.scan_append, GrammarLine.scan_lineMark hmark, List.append_nil, h.outside]
  exact ⟨rfl, rfl⟩

/-! ## Texts -/

variable {front back : Text}

/-- A text with another line at a place. -/
theorem ofText_lineAt {line : Text} (h : LineAt front line back) : ofText (front ++ line ++ back) =
    ofLines false (lines front) ++ ofLines (blockBehind false (lines front)) (line :: lines (Text.dropBreak back)) := by
  rw [ofText, h.lines_eq, ofLines_append]

/-- A block comment put into the code of a line changes nothing about any line. -/
theorem block_comment_unread (hline : LineAt front (left ++ right) back)
    (hcode : Reached (blockBehind false (lines front)) left) {c : Text} (hunbroken : ∀ x ∈ c, isLineBreak x = false)
    (hc : ¬"*/".text <:+: c) :
    ofText (front ++ (left ++ "/*".text ++ c ++ "*/".text ++ right) ++ back) = ofText (front ++ (left ++ right) ++ back) := by
  obtain ⟨hleft, hright⟩ := List.forall_mem_append.mp hline.unbroken
  have hnew : LineAt front (left ++ "/*".text ++ c ++ "*/".text ++ right) back := by
    refine hline.replace (fun hnil => ?_) ?_
    · simp only [List.append_eq_nil_iff] at hnil
      exact absurd hnil.1.2 (by decide)
    · simp only [List.forall_mem_append]
      exact ⟨⟨⟨⟨hleft, by decide⟩, hunbroken⟩, by decide⟩, hright⟩
  rw [ofText_lineAt hnew, ofText_lineAt hline, ofLines_cons, ofLines_cons, hcode.scan_block hc]

/-- A comment up to the end of a line: the code of every line is that of the text whose line ends
    in front of it. -/
theorem line_comment_unread (hline : LineAt front (left ++ right) back)
    (hcode : Reached (blockBehind false (lines front)) left) {mark c : Text} (hmark : mark ∈ lineMarks)
    (hunbroken : ∀ x ∈ c, isLineBreak x = false) : codeLines (ofText (front ++ (left ++ mark ++ c) ++ back)) =
      codeLines (ofLines false (lines front ++ left :: lines (Text.dropBreak back))) := by
  have hmarkUnbroken : mark ≠ [] ∧ ∀ x ∈ mark, isLineBreak x = false := by
    revert mark
    decide
  obtain ⟨hcodeEq, hblock⟩ := hcode.scan_lineMark hmark c
  have hnew : LineAt front (left ++ mark ++ c) back := by
    refine hline.replace (fun hnil => ?_) ?_
    · simp only [List.append_eq_nil_iff] at hnil
      exact hmarkUnbroken.1 hnil.1.2
    · simp only [List.forall_mem_append]
      exact ⟨⟨(List.forall_mem_append.mp hline.unbroken).1, hmarkUnbroken.2⟩, hunbroken⟩
  rw [codeLines_eq, codeLines_eq, ofText_lineAt hnew, ofLines_append, ofLines_cons, ofLines_cons, hcodeEq, hblock]
  simp only [List.map_append, List.map_cons]

/-- Deleting the rest of a line, unless that brings a carriage return and a line feed together. -/
theorem cut_line (hline : LineAt front (left ++ right) back)
    (happart : front.getLast? = some '\r' → (left ++ back).head? ≠ some '\n') : codeLines (ofText (front ++ left ++ back)) =
      codeLines (ofLines false (lines front ++ left :: lines (Text.dropBreak back))) := by
  by_cases hpresent : left ++ back = []
  · obtain ⟨rfl, rfl⟩ := List.append_eq_nil_iff.mp hpresent
    rw [List.append_nil, List.append_nil, ofLines_append, ofLines_cons]
    generalize blockBehind false (lines front) = b
    cases b <;> exact (codeLines_append_empty _ _).symm
  · have hcut : LineAt front left back :=
      ⟨hline.whole, (List.forall_mem_append.mp hline.unbroken).1, hline.ends, hpresent, happart⟩
    rw [ofText_lineAt hcut, ← ofLines_append]

/-- Comments never change the rules: a line of a text is put together of two parts, and behind the
    first one the reading is in code. The line has its place in the text, between `front` and `back`.
    A block comment between the parts leaves all that is read as it is. With a comment up to the end
    of the line in place of the second part, the same lines have the same code as if that part were
    not there; to delete it from the text comes to this as well, if no carriage return and line feed
    come together in its place. -/
theorem comments_keep_code {t left right : Text} {n : Nat} (hline : (lines t)[n]? = some (left ++ right))
    (hcode : Reached (blockBehind false ((lines t).take n)) left) :
    ∃ front back, t = front ++ (left ++ right) ++ back ∧ LineAt front (left ++ right) back ∧
      (lines front).length = n ∧
      (∀ c, (∀ x ∈ c, isLineBreak x = false) → ¬"*/".text <:+: c →
        ofText (front ++ (left ++ "/*".text ++ c ++ "*/".text ++ right) ++ back) = ofText t) ∧
      (∀ mark ∈ lineMarks, ∀ c, (∀ x ∈ c, isLineBreak x = false) →
        codeLines (ofText (front ++ (left ++ mark ++ c) ++ back)) = codeLines (ofLines false ((lines t).set n left))) ∧
      ((front.getLast? = some '\r' → (left ++ back).head? ≠ some '\n') →
        codeLines (ofText (front ++ left ++ back)) = codeLines (ofLines false ((lines t).set n left))) := by
  obtain ⟨front, back, rfl, hat, rfl⟩ := Text.exists_lineAt hline
  rw [hat.lines_eq, List.take_left] at hcode
  have hset : (lines (front ++ (left ++ right) ++ back)).set (lines front).length left =
      lines front ++ left :: lines (Text.dropBreak back) := by
    rw [hat.lines_eq, List.set_append_right _ _ (Nat.le_refl _), Nat.sub_self, List.set_cons_zero]
  refine ⟨front, back, rfl, hat, rfl, ?_, ?_, fun hapart => ?_⟩
  · intro c hunbroken hc
    exact block_comment_unread hat hcode hunbroken hc
  · intro mark hmark c hunbroken
    rw [hset]
    exact line_comment_unread hat hcode hmark hunbroken
  · rw [hset]
    exact cut_line hat hapart

/-- Three lines, the last of them begun inside a block comment. -/
def remarked : Text := "$a = b\n$c = /* see\n below */ d // e".text

theorem comments_keep_code_remarked :
    (lines remarked)[2]? = some (" below */ d ".text ++ "// e".text) ∧
    ∃ front back, remarked = front ++ (" below */ d ".text ++ "// e".text) ++ back ∧
      ofText (front ++ (" below */ d ".text ++ "/*".text ++ "/; // /*".text ++ "*/".text ++ "// e".text) ++ back) =
        ofText remarked ∧
      codeLines (ofText (front ++ (" below */ d ".text ++ "%".text ++ "/* e".text) ++ back)) =
        [(0, "$a = b".text), (1, "$c =".text), (2, "d".text)] := by
  have hline : (lines remarked)[2]? = some (" below */ d ".text ++ "// e".text) := by decide +kernel
  have hcode : Reached (blockBehind false ((lines remarked).take 2)) " below */ d ".text :=
    ⟨by decide +kernel, by decide +kernel, by decide⟩
  obtain ⟨front, back, ht, -, -, hblock, hrest, -⟩ := comments_keep_code hline hcode
  refine ⟨hline, front, back, ht, hblock _ (by decide) (by decide +kernel), ?_⟩
  rw [hrest _ (by decide) _ (by decide)]
  decide +kernel

end Errand.GrammarLine
