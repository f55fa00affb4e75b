/-
  Errand.Proofs.Wildcard.Keycodes — a keycode tells its name and its number.

  A name is of small letters and a number is written in digits, so one sees where the name
  ends; and what the zeros in front leave open, the value of the digits does not. Two
  keycodes are the same only if name and number are (`keycode_inj`).
-/

import Errand.Proofs.Text.Decimal
import Errand.Proofs.Text.Runs
import Errand.Wildcard.Occurrence
import Mathlib.Data.List.TakeWhile

namespace Errand

/-! ## Zeros in front -/

/-- Zeros in front do not change the value. -/
theorem value_zeros (k : Nat) (t : Text) :
    Numeral.value (List.replicate k (.char '0') ++ t) = Numeral.value t := by
  induction k with
  | zero => rfl
  | succ k ih =>
    rw [List.replicate_succ, List.cons_append, ← ih]
    have hzero : (Text.digitValue? (.char '0')).getD 0 = 0 := by decide
    rw [Numeral.value, List.foldl_cons, hzero]
    rfl

theorem fourDigits_ofNat (n : Nat) :
    fourDigits n = List.replicate (4 - (decimal n).length) (.char '0') ++ decimal n := rfl

theorem value_fourDigits (n : Nat) : Numeral.value (fourDigits n) = n := by
  rw [fourDigits_ofNat, value_zeros, value_decimal]

/-! ## Where the name ends -/

/-- A word of small letters. -/
def Small (t : Text) : Prop := ∀ c ∈ t, Reader.isSmall c = true

theorem isDigit_of_fourDigits {n : Nat} {c : CodePoint} (h : c ∈ fourDigits n) : ∃ d : Char, c = .char d ∧ d.isDigit = true := by
  rcases List.mem_append.mp h with hc | hc
  · rw [List.eq_of_mem_replicate hc]
    exact ⟨'0', rfl, by decide⟩
  · exact isDigit_of_mem_decimal hc

theorem isAnyDigit_of_fourDigits {n : Nat} {c : CodePoint} (h : c ∈ fourDigits n) : Text.isAnyDigit c = true := by
  obtain ⟨d, rfl, hd⟩ := isDigit_of_fourDigits h
  rw [Text.isAnyDigit, digitValue?_of_isDigit hd]
  rfl

theorem fourDigits_length (n : Nat) : 4 ≤ (fourDigits n).length := by
  rw [fourDigits_ofNat, List.length_append, List.length_replicate]
  omega

theorem fourDigits_head (n : Int) : ∀ c ∈ (fourDigits n).head?, Reader.isSmall c = false := by
  intro c hc
  cases n with
  | ofNat n =>
    obtain ⟨d, rfl, hd⟩ := isDigit_of_fourDigits (List.mem_of_mem_head? hc)
    simp only [Char.isDigit, Bool.and_eq_true, decide_eq_true_eq] at hd
    have hle : d.toNat ≤ 57 := hd.2
    have hnot : ¬CodePoint.char 'a' ≤ .char d := by
      intro h
      have : 97 ≤ d.toNat := h
      omega
    simp [Reader.isSmall, hnot]
  | negSucc n =>
    cases hc
    decide

theorem keycode_name {name : Text} (h : Small name) (n : Int) :
    (keycode name n).takeWhile Reader.isSmall = name := Text.takeWhile_run h (fourDigits_head n)

/-- Different names or numbers make different keycodes. -/
theorem keycode_inj {a b : Text} (ha : Small a) (hb : Small b) {m n : Nat} :
    keycode a m = keycode b n ↔ a = b ∧ m = n := by
  constructor
  · intro h
    have hname : a = b := by rw [← keycode_name ha m, h, keycode_name hb n]
    subst hname
    have hnumber : fourDigits m = fourDigits n := List.append_cancel_left h
    exact ⟨rfl, by rw [← value_fourDigits m, hnumber, value_fourDigits]⟩
  · rintro ⟨rfl, rfl⟩
    rfl

end Errand
