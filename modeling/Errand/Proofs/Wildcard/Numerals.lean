/-
  Errand.Proofs.Wildcard.Numerals — clauses out of sentences of short numerals.

  A clause is cut out of a sentence, wildcards nested in it give way to references, and these
  to quoted names once the wildcards are bound. Clause and metadata of a marker are cut at
  characters that are part of no word (`Marker.read_short`), and the digits of a reference
  are part of one (`short_reference`). So if no numeral of a sentence is too long, none is in
  any of its clauses (`scan_short`). A quoted name has none but its own (`short_quote`).
-/

import Errand.Proofs.Text.Numerals
import Errand.Proofs.Where.Tokens
import Errand.Proofs.Wildcard.Numbering

namespace Errand

open Text (ShortNumerals Fenced)

/-! ## What is cut out of a marker -/

namespace Marker

theorem name_ne_nil {t after : Text} {m : Marker} (h : read t = .ok (some (m, after))) : m.name ≠ [] := by
  obtain ⟨head, afterHead, body, hhead, -, -, rfl⟩ := read_eq_ok_iff.mp h
  rw [MarkerHead.read] at hhead
  split at hhead
  · cases hhead
  · rename_i hname
    cases hhead
    exact hname
  · cases hhead

theorem metadataMark?_short {inWord : Bool} {t inside : Text} (ht : ShortNumerals inWord t)
    (h : metadataMark? t = some inside) : ShortNumerals false inside := by
  obtain ⟨rest, hkeyword, hcolon⟩ := Option.bind_eq_some_iff.mp h
  rw [(Reader.keyword?_eq_some_iff.mp hkeyword).1] at ht
  have hspaces : Reader.dropSpaces rest <:+ rest := List.dropWhile_suffix _
  rw [Reader.char?_eq_some_iff.mp hcolon] at hspaces
  exact (ht.behind.suffix hspaces).tail

theorem readClause?_short {inWord : Bool} {t after : Text} {clause : Option Text} (ht : ShortNumerals inWord t)
    (h : MarkerBody.readClause? t = some (clause, after)) : ∀ c ∈ clause, ShortNumerals false c := by
  rcases MarkerBody.readClause?_cases h with ⟨-, rfl, -⟩ | ⟨rest, raw, hword, hraw, rfl⟩
  · intro c hc
    cases hc
  · obtain ⟨rfl, hhead⟩ := Reader.keyword?_eq_some_iff.mp hword
    have hrest := ht.behind.of_head (fun c hc => Text.not_digit_of_not_nameChar (hhead c hc)) false
    rw [clauseFrom_eq hraw] at hrest
    intro c hc
    cases hc
    exact hrest.front.trim

/-- No numeral is too long in what is cut out of a marker or is left behind it. -/
theorem read_short {inWord : Bool} {t after : Text} {m : Marker} (ht : ShortNumerals inWord t)
    (h : read t = .ok (some (m, after))) :
    (∀ c ∈ m.clause, ShortNumerals false c) ∧ (∀ d ∈ m.metadata, ShortNumerals false d) ∧ ShortNumerals false after := by
  have hafter := (ht.suffix (read_suffix h)).tail
  obtain ⟨head, afterHead, body, hhead, hbody, -, rfl⟩ := read_eq_ok_iff.mp h
  have hbegin := ht.suffix ((List.dropWhile_suffix _).trans (head_suffix hhead) : Reader.dropSpaces afterHead <:+ t)
  obtain ⟨afterClause, hclause, hrest⟩ := MarkerBody.read?_cases hbody
  refine ⟨readClause?_short hbegin hclause, fun d hd => ?_, hafter⟩
  rcases hrest with ⟨inside, metadata, hmark, hclosing, hmetadata⟩ | ⟨-, -, -, hmetadata⟩
  · obtain rfl := Option.some.inj (hd.symm.trans hmetadata)
    have hbehind := ht.suffix ((afterClause_suffix hclause).trans (head_suffix hhead))
    have hinside := metadataMark?_short hbehind hmark
    rw [Bracket.closing?_eq hclosing] at hinside
    exact hinside.front
  · cases hd.symm.trans hmetadata

end Marker

/-! ## References -/

theorem fenced_reference (k : Text) : Fenced (reference k) where
  nonempty := by simp [reference, String.text]
  head := by
    intro c hc
    cases hc
    decide
  last := by
    intro c hc
    rw [reference, List.getLast?_append] at hc
    cases hc
    decide

/-- The digits of a keycode belong to a word. -/
theorem short_reference {name : Text} (hsmall : Small name) (hname : name ≠ []) (n : Nat) :
    ShortNumerals false (reference (keycode name n)) := by
  have hword : ∀ c ∈ keycode name n, Reader.isNameChar c = true := by
    intro c hc
    rcases List.mem_append.mp hc with hc | hc
    · have hletter := hsmall c hc
      simp only [Reader.isSmall] at hletter
      rw [Reader.isNameChar, Reader.isLetter, hletter]
      rfl
    · obtain ⟨d, rfl, hd⟩ := isDigit_of_fourDigits hc
      simp only [Char.isDigit, Bool.and_eq_true, decide_eq_true_eq] at hd
      have hdigit : Reader.isDigit (.char d) = true := by
        simp only [Reader.isDigit, Bool.and_eq_true, decide_eq_true_eq]
        exact hd
      rw [Reader.isNameChar, hdigit, Bool.or_true]
      rfl
  have hhead : ∀ c ∈ (keycode name n).head?, Reader.isDigit c = false := by
    obtain ⟨c, rest, rfl⟩ := List.exists_cons_of_ne_nil hname
    intro d hd
    cases hd
    refine Bool.eq_false_iff.mpr fun hdigit => ?_
    have hletter := hsmall c List.mem_cons_self
    rw [Reader.not_small_of_digit hdigit] at hletter
    cases hletter
  have hkeycode := (Text.shortNumerals_of_word hword).of_head hhead false
  have hopen : ShortNumerals false ("<<".text ++ keycode name n) :=
    ShortNumerals.append_closed (by decide) (by decide) hkeycode
  exact hopen.append (Text.shortNumerals_of_undigit (by decide)) (by decide)

/-! ## Scanning -/

theorem Text.ShortNumerals.cons_of_run {inWord : Bool} {c : CodePoint} {t u : Text} (h : ShortNumerals inWord (c :: t))
    (hu : ShortNumerals (Reader.isNameChar c) u) (hrun : u.takeWhile Reader.isDigit = t.takeWhile Reader.isDigit) :
    ShortNumerals inWord (c :: u) := by
  refine ⟨fun hb => ?_, hu⟩
  have hlength := h.1 hb
  rw [List.takeWhile_cons] at hlength ⊢
  rw [hrun]
  exact hlength

namespace Markup

/-- What a scan gives for a text of short numerals: another such text, in which the digits at
    the beginning are the same, and clauses that are such texts too. -/
structure Short (inWord : Bool) (t : Text) (found : Found) : Prop where
  text : ShortNumerals inWord found.text
  run : found.text.takeWhile Reader.isDigit = t.takeWhile Reader.isDigit
  clauses : ∀ w ∈ found.all, ∀ c ∈ w.clause, ShortNumerals false c

theorem Short.char {inWord : Bool} {c : CodePoint} {t : Text} {found : Found} (ht : ShortNumerals inWord (c :: t))
    (h : Short (Reader.isNameChar c) t found) : Short inWord (c :: t) { found with text := c :: found.text } where
  text := ht.cons_of_run h.text h.run
  run := by
    rw [List.takeWhile_cons, List.takeWhile_cons, h.run]
  clauses := h.clauses

theorem numberOf_bounds {m : Marker} {k n n' : Int} (hn : 0 ≤ n) (h : (numberOf m).run n = (.ok k, n')) : 0 ≤ k ∧ 0 ≤ n' := by
  unfold numberOf at h
  split at h
  · cases h
    exact ⟨Int.natCast_nonneg _, hn⟩
  · cases h
    exact ⟨hn, by omega⟩

/-- The clause of an occurrence is what became of the one it was written with. -/
theorem short_occurrence {m : Marker} {place : Nat} {nested : Bool} {k : Int} {clause metadata : Text}
    (h : ShortNumerals false clause) : ∀ c ∈ (occurrence m place nested k clause metadata).clause, ShortNumerals false c := by
  intro c hc
  unfold occurrence at hc
  dsimp only at hc
  split at hc
  · cases hc
  · cases hc
  · cases hc
    exact h.trim

/-- A character in front of a markup of which the scan is short. -/
theorem number_char_short {nested : Bool} {n n' : Int} {inWord : Bool} {c : CodePoint} {t : Text} {rest : Markup}
    {found : Found} (ht : ShortNumerals inWord (c :: t))
    (ih : ∀ found n', (rest.number nested).run n = (.ok found, n') → 0 ≤ n' ∧ Short (Reader.isNameChar c) t found)
    (h : ((Markup.char c rest).number nested).run n = (.ok found, n')) : 0 ≤ n' ∧ Short inWord (c :: t) found := by
  obtain ⟨r, n₁, hr, h⟩ := run_bind_eq_ok.mp h
  obtain ⟨rfl, rfl⟩ := run_pure_eq_ok.mp h
  obtain ⟨hn', hshort⟩ := ih r n₁ hr
  exact ⟨hn', hshort.char ht⟩

/-- Of a text with short numerals a scan makes another one, and its clauses are such texts. -/
theorem number_short {kind : MarkupKind} {place : Nat} {t : Text} {inWord : Bool} (ht : ShortNumerals inWord t)
    {nested : Bool} {n n' : Int} (hn : 0 ≤ n) {found : Found}
    (h : ((read kind place t).number nested).run n = (.ok found, n')) : 0 ≤ n' ∧ Short inWord t found := by
  fun_induction read kind place t generalizing inWord nested n n' found with
  | case1 =>
    cases h
    exact ⟨hn, ⟨trivial, rfl, fun w hw => by cases hw⟩⟩
  | case2 place c rest ih => exact number_char_short ht (fun found n' h => ih ht.tail hn h) h
  | case3 kind place c rest hkind ih =>
    rw [escaped] at h
    split at h
    · rename_i hescaped
      -- the backslash is dropped in front of a character that is no digit
      have hcase : Reader.isDigit c = false := by
        simp only [Bool.and_eq_true, isUnescaped, Bool.or_eq_true, beq_iff_eq] at hescaped
        rcases hescaped.2 with (rfl | rfl) | rfl
        · decide
        · decide
        · decide
      have htail : ShortNumerals inWord (c :: rest) := ht.tail.of_head (fun d hd => by cases hd; exact hcase) inWord
      obtain ⟨hn', hshort⟩ := number_char_short htail (fun found n' h => ih htail.tail hn h) h
      refine ⟨hn', hshort.text, ?_, hshort.clauses⟩
      rw [hshort.run, List.takeWhile_cons_of_neg (by simp [hcase])]
      rfl
    · exact number_char_short ht (fun found n' h => number_char_short ht.tail (fun found n' h => ih ht.tail.tail hn h) h) h
  | case4 => cases h
  | case5 kind place rest hr hslash ih => exact number_char_short ht (fun found n' h => ih ht.tail hn h) h
  | case6 kind place rest m after hr hslash ihc ihd ih =>
    obtain ⟨hclause, hmetadata, hafter⟩ := Marker.read_short ht.tail hr
    obtain ⟨k, n₁, c, n₂, d, n₃, r, hk, hc, hd, hrest, rfl⟩ := run_marker_ok h
    obtain ⟨hk₀, hn₁⟩ := numberOf_bounds hn hk
    obtain ⟨k, rfl⟩ := Int.eq_ofNat_of_zero_le hk₀
    have hgetD {o : Option Text} (ho : ∀ t ∈ o, ShortNumerals false t) : ShortNumerals false (o.getD []) := by
      cases o with
      | none => trivial
      | some t => exact ho t rfl
    obtain ⟨hn₂, hcshort⟩ := ihc (hgetD hclause) hn₁ hc
    obtain ⟨hn₃, hdshort⟩ := ihd (hgetD hmetadata) hn₂ hd
    obtain ⟨hn', hrshort⟩ := ih hafter hn₃ hrest
    have hreference := short_reference (Marker.proper_of_read hr).small (Marker.name_ne_nil hr) k
    have hfenced := fenced_reference (keycode m.name k)
    refine ⟨hn', ⟨?_, ?_, ?_⟩⟩
    · exact hreference.weaken.append_closed (hfenced.endsInWord inWord) hrshort.text
    · rw [hfenced.takeWhile]
      rfl
    · refine List.forall_mem_cons.mpr ⟨short_occurrence hcshort.text, fun w hw => ?_⟩
      rcases List.mem_append.mp hw with hw | hw
      · rcases List.mem_append.mp hw with hw | hw
        · exact hcshort.clauses w hw
        · exact hdshort.clauses w hw
      · exact hrshort.clauses w hw
  | case7 kind place c rest hslash hbrace ih => exact number_char_short ht (fun found n' h => ih ht.tail hn h) h

end Markup

/-- No clause in a sentence of short numerals has one that is too long. -/
theorem scan_short {t : Text} (ht : ShortNumerals false t) {n n' : Int} (hn : 0 ≤ n) {found : Found}
    (h : (scan t).run n = (.ok found, n')) : ∀ w ∈ found.all, ∀ c ∈ w.clause, ShortNumerals false c :=
  (Markup.number_short ht hn h).2.clauses

/-! ## Names put into clauses -/

theorem takeWhile_escaped (t : Text) : (Where.escaped t).takeWhile Reader.isDigit = t.takeWhile Reader.isDigit := by
  induction t with
  | nil => rfl
  | cons c t ih =>
    rw [Where.escaped_cons]
    split
    · rename_i hc
      have hdigit : Reader.isDigit c = false := by
        rcases hc with rfl | rfl
        · decide
        · decide
      rw [List.takeWhile_cons_of_neg (by simp [hdigit])]
      rfl
    · rw [List.singleton_append, List.takeWhile_cons, List.takeWhile_cons, ih]

theorem short_escaped {inWord : Bool} {t : Text} (h : ShortNumerals inWord t) : ShortNumerals inWord (Where.escaped t) := by
  induction t generalizing inWord with
  | nil => trivial
  | cons c t ih =>
    have hrest := ih h.tail
    have hown := h.cons_of_run hrest (takeWhile_escaped t)
    rw [Where.escaped_cons]
    split
    · rename_i hc
      have hdigit : ∀ d ∈ (c :: Where.escaped t).head?, Reader.isDigit d = false := by
        intro d hd
        cases hd
        rcases hc with rfl | rfl
        · decide
        · decide
      have hslash : ShortNumerals inWord [.char '\\'] := Text.shortNumerals_of_undigit (by decide)
      exact hslash.append (hown.of_head hdigit _) hdigit
    · exact hown

theorem fenced_quote (t : Text) : Fenced (Where.quote t) where
  nonempty := by simp [Where.quote, String.text]
  head := by
    intro c hc
    cases hc
    decide
  last := by
    intro c hc
    rw [Where.quote, List.getLast?_append] at hc
    cases hc
    decide

theorem short_quote {t : Text} (h : ShortNumerals false t) : ShortNumerals false (Where.quote t) := by
  have hopen : ShortNumerals false ("\"".text ++ Where.escaped t) :=
    ShortNumerals.append_closed (Text.shortNumerals_of_undigit (by decide)) (by decide) (short_escaped h)
  exact hopen.append (Text.shortNumerals_of_undigit (by decide)) (by decide)

end Errand
