/-
  Errand.Proofs.Text.Numerals — texts without long numerals.

  An integer of up to 308 digits has a floating point number near it
  (`Double.ofInt?_isSome`); with one more digit that is no longer sure. In a text a numeral can
  begin wherever no name character stands in front: the digits of `shelf7` are part of a
  name. So a text of short numerals (`ShortNumerals`) is one in which no longer row of digits
  begins at such a place. What is cut out of such a text is another one, unless it is cut
  inside a word, and so is what is put together of such texts, unless digits come to stand
  behind digits.
-/

import Errand.Proofs.Text.Readers
import Errand.Proofs.Text.Decimal
import Errand.Where.Clause

namespace Errand

/-! ## Integers with a floating point number near them -/

namespace Double

/-- The most digits with which an integer is sure to have a floating point number near it. -/
def safeDigits : Nat := 308

/-- Rounding to the bits of a significand goes up by a small part at most. -/
theorem roundUnits_le (n : Nat) : 2 ^ 52 * roundUnits n 1 ≤ (2 ^ 52 + 1) * n + 2 ^ 52 := by
  have hquotient (spare : Nat) : roundQuotient n (2 ^ spare) * 2 ^ spare ≤ n + 2 ^ spare := by
    have hle : roundQuotient n (2 ^ spare) ≤ n / 2 ^ spare + 1 := by
      unfold roundQuotient
      dsimp only
      split_ifs <;> omega
    calc roundQuotient n (2 ^ spare) * 2 ^ spare ≤ (n / 2 ^ spare + 1) * 2 ^ spare := Nat.mul_le_mul_right _ hle
      _ = n / 2 ^ spare * 2 ^ spare + 2 ^ spare := by rw [Nat.add_mul, Nat.one_mul]
      _ ≤ n + 2 ^ spare := Nat.add_le_add_right (Nat.div_mul_le_self _ _) _
  have hspare : 2 ^ 52 * 2 ^ spareBits n ≤ n + 2 ^ 52 := by
    unfold spareBits precision
    by_cases hbits : n.log2 ≤ 52
    · rw [Nat.sub_eq_zero_of_le (by omega)]
      omega
    · have hn : n ≠ 0 := by
        rintro rfl
        exact hbits (by decide)
      have hpow := Nat.log2_self_le hn
      rw [← Nat.pow_add, show 52 + (n.log2 + 1 - 53) = n.log2 by omega]
      omega
  have hround : roundUnits n 1 ≤ n + 2 ^ spareBits n := by
    have h := hquotient (spareBits n)
    unfold roundUnits
    dsimp only
    rw [Nat.div_one, Nat.one_mul]
    exact h
  have hscaled := Nat.mul_le_mul_left (2 ^ 52) hround
  rw [Nat.mul_add] at hscaled
  rw [Nat.add_mul, Nat.one_mul]
  omega

/-- The largest safe integer, rounded up, is still finite. -/
theorem safe_finite : (2 ^ 52 + 1) * (10 ^ safeDigits * unitsOfOne) + 2 ^ 52 < 2 ^ 52 * Nat.pow 2 topExponent := by
  decide +kernel

theorem roundUnits_lt {n : Nat} (h : n < 10 ^ safeDigits) : roundUnits (n * unitsOfOne) 1 < Nat.pow 2 topExponent := by
  have hfinite := safe_finite
  have hround := roundUnits_le (n * unitsOfOne)
  have hscaled := Nat.mul_le_mul_left (2 ^ 52 + 1) (Nat.mul_le_mul_right unitsOfOne (Nat.le_of_lt h))
  exact Nat.lt_of_mul_lt_mul_left (Nat.lt_of_le_of_lt (hround.trans (Nat.add_le_add_right hscaled _)) hfinite)

theorem ofRatio_eq (negative : Bool) (num den : Nat) : ofRatio negative num den =
    if roundUnits (num * unitsOfOne) den < Nat.pow 2 topExponent
    then .finite negative (roundUnits (num * unitsOfOne) den) else .infinite negative := rfl

theorem ofInt?_eq (n : Int) : ofInt? n = finite? (ofRatio (decide (n < 0)) n.natAbs 1) := rfl

theorem ofInt?_isSome {n : Int} (h : n.natAbs < 10 ^ safeDigits) : (ofInt? n).isSome = true := by
  rw [ofInt?_eq, ofRatio_eq, if_pos (roundUnits_lt h)]
  rfl

end Double

/-! ## Short numerals -/

namespace Text
open Reader

/-- No numeral begins here that has too many digits; `inWord` says whether a name character
    stands in front, behind which no numeral begins. -/
def ShortNumerals : (inWord : Bool) → Text → Prop
  | _, [] => True
  | inWord, c :: rest =>
    (inWord = false → ((c :: rest).takeWhile isDigit).length ≤ Double.safeDigits) ∧ ShortNumerals (isNameChar c) rest

instance ShortNumerals.decidable : (inWord : Bool) → (t : Text) → Decidable (ShortNumerals inWord t)
  | _, [] => isTrue trivial
  | _, c :: rest =>
    have := ShortNumerals.decidable (isNameChar c) rest
    inferInstanceAs (Decidable (_ ∧ _))

variable {inWord : Bool} {t u : Text} {c : CodePoint}

theorem toNat_of_isNameChar (hc : isNameChar c = true) : (48 ≤ c.toNat ∧ c.toNat ≤ 57) ∨
    (65 ≤ c.toNat ∧ c.toNat ≤ 90) ∨ c.toNat = 95 ∨ (97 ≤ c.toNat ∧ c.toNat ≤ 122) := by
  by_cases hdigit : isDigit c = true
  · exact Or.inl (toNat_of_isDigit hdigit)
  · rw [isNameChar, Bool.eq_false_iff.mpr hdigit, Bool.or_false] at hc
    exact Or.inr (toNat_of_isNameStart hc)

theorem not_nameChar_of_isBlank (hc : isBlank c = true) : isNameChar c = false := by
  refine Bool.eq_false_iff.mpr fun hname => ?_
  have := toNat_of_isNameChar hname
  simp only [isBlank, Bool.or_eq_true, Bool.and_eq_true, decide_eq_true_eq, beq_iff_eq] at hc
  omega

theorem not_nameChar_of_isSpace (hc : isSpace c = true) : isNameChar c = false := by
  refine Bool.eq_false_iff.mpr fun hname => ?_
  have := toNat_of_isNameChar hname
  have := toNat_of_isSpace hc
  omega

theorem not_digit_of_not_nameChar (hc : isNameChar c = false) : isDigit c = false := by
  simp only [isNameChar, Bool.or_eq_false_iff] at hc
  exact hc.1.2

/-- Whether what follows a text has a name character in front. -/
def endsInWord (inWord : Bool) (t : Text) : Bool := (t.getLast?.map isNameChar).getD inWord

theorem endsInWord_cons (inWord : Bool) (c : CodePoint) (t : Text) :
    endsInWord inWord (c :: t) = endsInWord (isNameChar c) t := by
  cases t with
  | nil => rfl
  | cons d t =>
    rw [endsInWord, List.getLast?_cons_cons, endsInWord]
    cases h : (d :: t).getLast? with
    | none => simp at h
    | some e => rfl

theorem ShortNumerals.tail (h : ShortNumerals inWord (c :: t)) : ShortNumerals (isNameChar c) t := h.2

/-- Inside a word less is asked. -/
theorem ShortNumerals.inside (h : ShortNumerals inWord t) : ShortNumerals true t := by
  cases t with
  | nil => trivial
  | cons c t => exact ⟨fun hb => Bool.noConfusion hb, h.2⟩

/-- Where no digit stands no numeral begins. -/
theorem ShortNumerals.of_head (h : ShortNumerals inWord t) (ht : ∀ c ∈ t.head?, isDigit c = false) (b : Bool) :
    ShortNumerals b t := by
  cases t with
  | nil => trivial
  | cons c t =>
    refine ⟨fun _ => ?_, h.2⟩
    rw [List.takeWhile_cons_of_neg (by simp [ht c rfl])]
    exact Nat.zero_le _

theorem ShortNumerals.weaken (h : ShortNumerals false t) : ShortNumerals inWord t := by
  cases t with
  | nil => trivial
  | cons c t => exact ⟨fun _ => h.1 rfl, h.2⟩

theorem ShortNumerals.behind (h : ShortNumerals inWord (t ++ u)) : ShortNumerals (endsInWord inWord t) u := by
  induction t generalizing inWord with
  | nil => exact h
  | cons c t ih =>
    rw [endsInWord_cons]
    exact ih h.tail

theorem ShortNumerals.suffix (h : ShortNumerals inWord t) (hu : u <:+ t) : ShortNumerals true u := by
  obtain ⟨front, rfl⟩ := hu
  exact h.behind.inside

theorem ShortNumerals.front (h : ShortNumerals inWord (t ++ u)) : ShortNumerals inWord t := by
  induction t generalizing inWord with
  | nil => trivial
  | cons c t ih =>
    refine ⟨fun hb => ?_, ih h.tail⟩
    have hrun : ((c :: t).takeWhile isDigit).length ≤ (((c :: t) ++ u).takeWhile isDigit).length := by
      rw [List.takeWhile_append]
      split
      · rename_i hall
        rw [List.length_append, ← hall]
        exact Nat.le_add_right _ _
      · exact Nat.le_refl _
    exact Nat.le_trans hrun (h.1 hb)

theorem ShortNumerals.append (h : ShortNumerals inWord t) (hu : ShortNumerals (endsInWord inWord t) u)
    (hhead : ∀ c ∈ u.head?, isDigit c = false) : ShortNumerals inWord (t ++ u) := by
  induction t generalizing inWord with
  | nil => exact hu
  | cons c t ih =>
    rw [endsInWord_cons] at hu
    refine ⟨fun hb => ?_, ih h.tail hu⟩
    have hrun : ((c :: t) ++ u).takeWhile isDigit = (c :: t).takeWhile isDigit := takeWhile_append_of_head hhead (c :: t)
    show (((c :: t) ++ u).takeWhile isDigit).length ≤ _
    rw [hrun]
    exact h.1 hb

/-- Behind a text that does not end in a word another one begins anew. -/
theorem ShortNumerals.append_closed (h : ShortNumerals inWord t) (hends : endsInWord inWord t = false)
    (hu : ShortNumerals false u) : ShortNumerals inWord (t ++ u) := by
  induction t generalizing inWord with
  | nil =>
    rw [show inWord = false from hends]
    exact hu
  | cons c t ih =>
    refine ⟨fun hb => ?_, ih h.tail (by rwa [endsInWord_cons] at hends)⟩
    have hrun : ((c :: t) ++ u).takeWhile isDigit = (c :: t).takeWhile isDigit := by
      rw [List.takeWhile_append, if_neg]
      intro hall
      have hdigits := List.takeWhile_eq_self_iff.mp ((List.takeWhile_prefix _).eq_of_length hall)
      have hlast := hdigits _ (List.getLast_mem (List.cons_ne_nil c t))
      rw [endsInWord, List.getLast?_eq_some_getLast (List.cons_ne_nil c t), Option.map_some, Option.getD_some] at hends
      rw [not_digit_of_not_nameChar hends] at hlast
      cases hlast
    show (((c :: t) ++ u).takeWhile isDigit).length ≤ _
    rw [hrun]
    exact h.1 hb

/-- A text without digits. -/
theorem shortNumerals_of_undigit (h : ∀ c ∈ t, isDigit c = false) : ShortNumerals inWord t := by
  induction t generalizing inWord with
  | nil => trivial
  | cons c t ih =>
    obtain ⟨hc, ht⟩ := List.forall_mem_cons.mp h
    refine ⟨fun _ => ?_, ih ht⟩
    rw [List.takeWhile_cons_of_neg (by simp [hc])]
    exact Nat.zero_le _

/-- Name characters inside a word. -/
theorem shortNumerals_of_word (h : ∀ c ∈ t, isNameChar c = true) : ShortNumerals true t := by
  induction t with
  | nil => trivial
  | cons c t ih =>
    obtain ⟨hc, ht⟩ := List.forall_mem_cons.mp h
    refine ⟨fun h => ?_, ?_⟩
    · cases h
    · rw [hc]
      exact ih ht

theorem ShortNumerals.dropWhile {p : CodePoint → Bool} (hp : ∀ c, p c = true → isNameChar c = false)
    (h : ShortNumerals false t) : ShortNumerals false (t.dropWhile p) := by
  induction t with
  | nil => exact h
  | cons c t ih =>
    by_cases hc : p c = true
    · rw [List.dropWhile_cons_of_pos hc]
      have htail := h.tail
      rw [hp c hc] at htail
      exact ih htail
    · rw [List.dropWhile_cons_of_neg hc]
      exact h

/-- Trimming cuts nothing out of a word. -/
theorem ShortNumerals.trim (h : ShortNumerals false t) : ShortNumerals false (trim t) := by
  have hleft := h.dropWhile (p := isBlank) fun _ => not_nameChar_of_isBlank
  rw [trim_eq]
  obtain ⟨behind, hbehind⟩ := List.rdropWhile_prefix isBlank (t.dropWhile isBlank)
  rw [← hbehind] at hleft
  exact hleft.front

theorem ShortNumerals.dropSpaces (h : ShortNumerals false t) : ShortNumerals false (dropSpaces t) :=
  h.dropWhile fun _ => not_nameChar_of_isSpace

/-! ## Replacing -/

theorem replaceFrom_skip (old new : Text) (skip : Nat) (t : Text) :
    replaceFrom old new skip t = replaceFrom old new 0 (t.drop skip) := by
  induction skip generalizing t with
  | zero => rfl
  | succ skip ih =>
    cases t with
    | nil => rfl
    | cons c t => exact ih t

/-- A text that does not begin with a digit and does not end in a word. -/
structure Fenced (t : Text) : Prop where
  nonempty : t ≠ []
  head : ∀ c ∈ t.head?, isDigit c = false
  last : ∀ c ∈ t.getLast?, isNameChar c = false

theorem Fenced.endsInWord (h : Fenced t) (inWord : Bool) : endsInWord inWord t = false := by
  unfold Text.endsInWord
  rcases hlast : t.getLast? with _ | c
  · exact absurd (List.getLast?_eq_none_iff.mp hlast) h.nonempty
  · exact h.last c hlast

theorem Fenced.takeWhile (h : Fenced t) (u : Text) : (t ++ u).takeWhile isDigit = [] := by
  obtain ⟨c, t, rfl⟩ := List.exists_cons_of_ne_nil h.nonempty
  exact List.takeWhile_cons_of_neg (by simp [h.head c rfl])

theorem takeWhile_replaceFrom {old new : Text} (hold : Fenced old) (hnew : Fenced new) (t : Text) :
    (replaceFrom old new 0 t).takeWhile isDigit = t.takeWhile isDigit := by
  induction t with
  | nil => rfl
  | cons c t ih =>
    rw [replaceFrom]
    split
    · rename_i hold'
      obtain ⟨rest, hrest⟩ := List.isPrefixOf_iff_prefix.mp hold'
      rw [hnew.takeWhile, ← hrest, hold.takeWhile]
    · rw [List.takeWhile_cons, List.takeWhile_cons, ih]

/-- A piece is replaced by another one; neither begins with a digit or ends in a word. -/
theorem ShortNumerals.replaceFrom {old new : Text} (hold : Fenced old) (hnew : Fenced new)
    (hshort : ShortNumerals false new) (h : ShortNumerals inWord t) :
    ShortNumerals inWord (Text.replaceFrom old new 0 t) := by
  induction hn : t.length using Nat.strong_induction_on generalizing t inWord with
  | _ n ih =>
    cases t with
    | nil => trivial
    | cons c t =>
      rw [Text.replaceFrom]
      split
      · rename_i hold'
        obtain ⟨rest, hrest⟩ := List.isPrefixOf_iff_prefix.mp hold'
        have hpos := List.length_pos_iff.mpr hold.nonempty
        have hdrop : t.drop (old.length - 1) = rest := by
          rw [← List.drop_succ_cons (a := c), ← hrest, Nat.sub_add_cancel hpos, List.drop_left]
        have hlength := congrArg List.length hrest
        rw [List.length_append, hn] at hlength
        rw [← hrest] at h
        have hbehind := h.behind
        rw [hold.endsInWord] at hbehind
        rw [replaceFrom_skip, hdrop]
        exact hshort.weaken.append_closed (hnew.endsInWord _) (ih rest.length (by omega) hbehind rfl)
      · refine ⟨fun hb => ?_, ih t.length (by rw [← hn]; exact Nat.lt_succ_self _) h.tail rfl⟩
        have hrun := h.1 hb
        rw [List.takeWhile_cons] at hrun ⊢
        rw [takeWhile_replaceFrom hold hnew]
        exact hrun

theorem ShortNumerals.replaceAll {old new : Text} (hold : Fenced old) (hnew : Fenced new)
    (hshort : ShortNumerals false new) (h : ShortNumerals inWord t) : ShortNumerals inWord (Text.replaceAll old new t) :=
  ShortNumerals.replaceFrom hold hnew hshort h

end Text

end Errand
