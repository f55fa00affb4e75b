/-
  Errand.Proofs.Text.Decimal — natural numbers written in decimal digits.

  The digits of a number are read as the number they were written from (`value_decimal`),
  and no way to write it has fewer of them (`decimal_length_le`).
-/

import Errand.Proofs.Text.Runs
import Errand.Text.Reader
import Mathlib.Data.List.Induction
import Mathlib.Data.List.TakeWhile
import Mathlib.Data.Nat.Digits.Defs

namespace Errand

theorem digitValue?_of_isDigit {c : Char} (h : c.isDigit = true) :
    Text.digitValue? (.char c) = some (c.toNat - '0'.toNat) := by
  simp only [Char.isDigit, Bool.and_eq_true, decide_eq_true_eq] at h
  have hlow : 48 ≤ c.toNat := h.1
  have hhigh : c.toNat ≤ 57 := h.2
  have hzero : '0'.toNat = 48 := rfl
  unfold Text.digitValue? Text.digitRuns
  rw [List.find?_cons_of_pos]
  · simp only [Option.map_some, CodePoint.toNat, Option.some.injEq, hzero]
    omega
  · show (decide (48 ≤ c.toNat) && decide (c.toNat ≤ 57)) = true
    simp only [hlow, hhigh, decide_true, Bool.and_true]

theorem decimal_eq (n : Nat) : decimal n = (Nat.toDigits 10 n).map CodePoint.char := by
  rw [← Nat.toList_repr]
  rfl

theorem isDigit_of_mem_decimal {n : Nat} {c : CodePoint} (h : c ∈ decimal n) :
    ∃ d : Char, c = .char d ∧ d.isDigit = true := by
  obtain ⟨d, hd, rfl⟩ := List.mem_map.mp h
  refine ⟨d, rfl, Nat.isDigit_of_mem_toDigits (b := 10) (n := n) (by decide) (by decide) ?_⟩
  rw [← Nat.toList_repr]
  exact hd

theorem foldl_digits {l : List Char} (h : ∀ c ∈ l, c.isDigit = true) (init : Nat) :
    (l.map CodePoint.char).foldl (fun n c => 10 * n + (Text.digitValue? c).getD 0) init =
      Nat.ofDigitChars 10 l init := by
  induction l generalizing init with
  | nil => rfl
  | cons c l ih =>
    rw [List.map_cons, List.foldl_cons, digitValue?_of_isDigit (h c List.mem_cons_self),
      ih fun d hd => h d (List.mem_cons_of_mem _ hd)]
    rfl

/-- A number is read as it was written. -/
theorem value_decimal (n : Nat) : Numeral.value (decimal n) = n := by
  rw [Numeral.value, decimal_eq, foldl_digits, Nat.ofDigitChars_ten_toDigits]
  exact fun c hc => Nat.isDigit_of_mem_toDigits (by decide) (by decide) hc

theorem isDigit_of_decimal {n : Nat} {c : CodePoint} (h : c ∈ decimal n) : Reader.isDigit c = true := by
  obtain ⟨d, rfl, hd⟩ := isDigit_of_mem_decimal h
  simp only [Char.isDigit, Bool.and_eq_true, decide_eq_true_eq] at hd
  have hlow : 48 ≤ d.toNat := hd.1
  have hhigh : d.toNat ≤ 57 := hd.2
  show (decide (48 ≤ d.toNat) && decide (d.toNat ≤ 57)) = true
  simp only [hlow, hhigh, decide_true, Bool.and_true]

theorem decimal_ne_nil (n : Nat) : decimal n ≠ [] := by
  intro h
  rw [decimal_eq, List.map_eq_nil_iff] at h
  exact Nat.toDigits_ne_nil h

theorem digitValue?_lt (c : CodePoint) : (Text.digitValue? c).getD 0 < 10 := by
  rcases h : Text.digitValue? c with _ | v
  · exact Nat.zero_lt_succ 9
  · obtain ⟨run, -, rfl⟩ := Option.map_eq_some_iff.mp h
    exact Nat.mod_lt _ (Nat.zero_lt_succ 9)

theorem value_lt (digits : Text) : Numeral.value digits < 10 ^ digits.length := by
  induction digits using List.reverseRecOn with
  | nil => exact Nat.zero_lt_one
  | append_singleton digits c ih =>
    have hc := digitValue?_lt c
    rw [Numeral.value] at ih
    rw [Numeral.value, List.foldl_append, List.foldl_cons, List.foldl_nil, List.length_append, List.length_singleton,
      Nat.pow_succ]
    omega

/-- No way to write a number has fewer digits. -/
theorem decimal_length_le {digits : Text} (hne : digits ≠ []) :
    (decimal (Numeral.value digits)).length ≤ digits.length := by
  rw [decimal_eq, List.length_map]
  exact Nat.toDigits_length _ _ _ (List.length_pos_iff.mpr hne) (value_lt digits)

/-! ## Integers -/

theorem natAbs_signed (negative : Bool) (n : Nat) : (Numeral.signed negative n).natAbs = n := by
  cases negative with
  | true => exact Int.natAbs_neg n
  | false => rfl

namespace NumberShape

theorem whole_ne_nil {t after : Text} {s : NumberShape} (h : read? t = some (s, after)) (hs : s.fraction = none) :
    s.whole ≠ [] := by
  cases begins_of_read? h with
  | pointed => cases hs
  | unpointed _ hne => exact hne

/-- An integer that was read can be written with no more digits than may be read. -/
theorem value?_integer_length {t after : Text} {s : NumberShape} {n : Int} (h : read? t = some (s, after))
    (hn : s.value? = some (.integer n)) : (decimal n.natAbs).length ≤ Numeral.maxDigits := by
  unfold value? at hn
  dsimp only at hn
  split at hn
  · rename_i hfraction _
    split at hn
    · cases hn
    · rename_i hlength
      cases hn
      have hdigits := decimal_length_le (whole_ne_nil h hfraction)
      rw [natAbs_signed]
      omega
  · cases hn

/-! The parts of a number, each in front of what does not go on with it. -/

theorem readSign_unsigned {t : Text} (ht : ∀ c ∈ t.head?, c ≠ '+' ∧ c ≠ '-') : readSign t = ([], t) := by
  rcases t with _ | ⟨c, t⟩
  · rfl
  · obtain ⟨hplus, hminus⟩ := ht c rfl
    rw [readSign, if_neg (by simp [hplus, hminus])]

theorem readExponent?_unlettered {t : Text} (ht : ∀ c ∈ t.head?, c ≠ 'e' ∧ c ≠ 'E') :
    readExponent? t = some (none, t) := by
  rcases t with _ | ⟨c, t⟩
  · rfl
  · obtain ⟨hsmall, hcapital⟩ := ht c rfl
    rw [readExponent?, if_neg (by simp [hsmall, hcapital])]

theorem read?_unpointed {t sign whole rest : Text} (hsign : readSign t = (sign, whole ++ rest)) (hne : whole ≠ [])
    (hwhole : ∀ c ∈ whole, Reader.isDigit c = true) (hrest : ∀ c ∈ rest.head?, Reader.isDigit c = false ∧ c ≠ '.') :
    read? t = (readExponent? rest).map fun (exponent, after) => (⟨sign, whole, none, exponent⟩, after) := by
  have hundigit : ∀ c ∈ rest.head?, Reader.isDigit c = false := fun c hc => (hrest c hc).1
  unfold read?
  rw [hsign]
  dsimp only
  rw [Text.takeWhile_run hwhole hundigit, Text.dropWhile_run hwhole hundigit]
  split
  · exact absurd rfl (hrest _ rfl).2
  · exact if_neg (by simpa using hne)

theorem read?_pointed {t sign whole fraction rest : Text}
    (hsign : readSign t = (sign, whole ++ .char '.' :: (fraction ++ rest)))
    (hwhole : ∀ c ∈ whole, Reader.isDigit c = true) (hne : fraction ≠ [])
    (hfraction : ∀ c ∈ fraction, Reader.isDigit c = true) (hrest : ∀ c ∈ rest.head?, Reader.isDigit c = false) :
    read? t = (readExponent? rest).map fun (exponent, after) => (⟨sign, whole, some fraction, exponent⟩, after) := by
  have hpoint : ∀ c ∈ (CodePoint.char '.' :: (fraction ++ rest)).head?, Reader.isDigit c = false := by
    intro c hc
    cases hc
    decide
  unfold read?
  rw [hsign]
  dsimp only
  rw [Text.takeWhile_run hwhole hpoint, Text.dropWhile_run hwhole hpoint]
  show (if ((fraction ++ rest).takeWhile Reader.isDigit).isEmpty = true then none else _) = _
  rw [Text.takeWhile_run hfraction hrest, Text.dropWhile_run hfraction hrest, if_neg (by simpa using hne)]

/-- What does not continue an integer, nor makes it a real number. -/
structure EndsInteger (rest : Text) : Prop where
  undigit : ∀ c ∈ rest.head?, Reader.isDigit c = false
  unpointed : ∀ c ∈ rest.head?, c ≠ '.'
  unlettered : ∀ c ∈ rest.head?, c ≠ 'e' ∧ c ≠ 'E'

/-- Digits behind a sign are an integer. -/
theorem read?_digits {t sign digits rest : Text} (hsign : readSign t = (sign, digits ++ rest)) (hne : digits ≠ [])
    (hdigits : ∀ c ∈ digits, Reader.isDigit c = true) (hrest : EndsInteger rest) :
    read? t = some (⟨sign, digits, none, none⟩, rest) := by
  rw [read?_unpointed hsign hne hdigits fun c hc => ⟨hrest.undigit c hc, hrest.unpointed c hc⟩,
    readExponent?_unlettered hrest.unlettered]
  rfl

theorem value?_digits {sign : Text} {k : Nat} (hlength : (decimal k).length ≤ Numeral.maxDigits) :
    value? ⟨sign, decimal k, none, none⟩ = some (.integer (Numeral.signed (sign == "-".text) k)) := by
  rw [value?, if_neg (Nat.not_lt.mpr hlength), value_decimal]

theorem readSign_decimal (k : Nat) (rest : Text) : readSign (decimal k ++ rest) = ([], decimal k ++ rest) := by
  obtain ⟨d, more, hd⟩ := List.exists_cons_of_ne_nil (decimal_ne_nil k)
  have hdigit : Reader.isDigit d = true := isDigit_of_decimal (n := k) (hd ▸ List.mem_cons_self)
  rw [hd, List.cons_append]
  refine readSign_unsigned fun c hc => ?_
  cases hc
  constructor
  · rintro rfl
    exact absurd hdigit (by decide)
  · rintro rfl
    exact absurd hdigit (by decide)

/-- An integer is read as it was written. -/
theorem read?_signedDecimal {n : Int} (hlength : (decimal n.natAbs).length ≤ Numeral.maxDigits) {rest : Text}
    (hrest : EndsInteger rest) :
    ∃ s, read? (signedDecimal n ++ rest) = some (s, rest) ∧ s.value? = some (.integer n) := by
  have hdigits : ∀ k, ∀ c ∈ decimal k, Reader.isDigit c = true := fun k c hc => isDigit_of_decimal hc
  cases n with
  | ofNat k => exact ⟨_, read?_digits (readSign_decimal k rest) (decimal_ne_nil k) (hdigits k) hrest, value?_digits hlength⟩
  | negSucc k => exact ⟨_, read?_digits rfl (decimal_ne_nil (k + 1)) (hdigits (k + 1)) hrest, value?_digits hlength⟩

end NumberShape

end Errand
