/-
  Errand.Proofs.Where.Comparing — integers compared by way of floating point numbers.

  A clause with an integer in it brings the property and the integer to the floating point
  numbers nearest to them and compares these. Rounding keeps the order of integers but not
  their difference, so the answer is that of the integers themselves unless both become one
  number; then they are taken for equal. Below 2 ^ 53 no integer shares its number with
  another one, from there on neighbours do (`neighbours_taken_for_equal`).
-/

import Errand.Proofs.Number.Rounding
import Errand.Proofs.Run
import Errand.Where.Meaning

namespace Errand

/-- The integer a property holds; a truth value counts as one or zero. -/
def Property.integer? : Property → Option Int
  | .value (.int n) => some n
  | .value (.bool b) => some (if b then 1 else 0)
  | .tier t => some t.number
  | _ => none

theorem Property.asNumber_of_integer? {found : Property} {p : Int} (h : found.integer? = some p) :
    found.isNull = false ∧ found.asNumber = (Where.floating p).map some := by
  unfold integer? at h
  split at h
  case h_4 => cases h
  all_goals
    cases h
    exact ⟨rfl, rfl⟩

namespace Where

/-! ## Comparators on integers -/

/-- How a comparator compares two integers. -/
def Comparator.relates : Comparator → Int → Int → Bool
  | .equal, a, b => decide (a = b)
  | .unequal, a, b => decide (a ≠ b)
  | .greater, a, b => decide (a > b)
  | .atLeast, a, b => decide (a ≥ b)
  | .less, a, b => decide (a < b)
  | .atMost, a, b => decide (a ≤ b)
  | .other _, _, _ => false

variable {cmp : Comparator} {p n : Int} {x y : Double}

/-- Comparing floating point numbers is comparing their places. -/
theorem Comparator.holds_places {i j : Int} (hx : x.place? = some i) (hy : y.place? = some j) :
    cmp.holds x y = cmp.relates i j := by
  cases cmp <;>
    simp [Comparator.holds, Comparator.relates, Double.equal, Double.less, Double.atMost, Double.compareBy, hx, hy,
      Bool.beq_eq_decide_eq]

/-- A comparator sees nothing of two integers but how they lie to each other. -/
theorem Comparator.relates_congr {a b c d : Int} (hlt : a < b ↔ c < d) (hgt : b < a ↔ d < c) :
    cmp.relates a b = cmp.relates c d := by
  cases cmp with
  | other sign => rfl
  | equal | unequal | greater | atLeast | less | atMost =>
    rw [Comparator.relates, Comparator.relates, decide_eq_decide]
    omega

theorem Comparator.holds_of_apart (hx : Double.ofInt? p = some x) (hy : Double.ofInt? n = some y) (h : x ≠ y ∨ p = n) :
    cmp.holds x y = cmp.relates p n := by
  rw [Comparator.holds_places (Double.place?_of_ofInt? hx) (Double.place?_of_ofInt? hy)]
  have happart : p = n ∨ Double.nearestPlace p ≠ Double.nearestPlace n :=
    h.symm.imp_right (Double.ofInt?_inj hx hy).not.mp
  rcases Int.lt_trichotomy p n with hlt | rfl | hgt
  · have := Double.nearestPlace_mono (Int.le_of_lt hlt)
    exact Comparator.relates_congr (by omega) (by omega)
  · exact Comparator.relates_congr (by omega) (by omega)
  · have := Double.nearestPlace_mono (Int.le_of_lt hgt)
    exact Comparator.relates_congr (by omega) (by omega)

theorem Comparator.holds_of_meeting (hy : Double.ofInt? n = some y) : cmp.holds y y = cmp.relates n n :=
  Comparator.holds_of_apart hy hy (Or.inr rfl)

/-! ## Conditions -/

theorem Condition.holds_integer {property : Text} {found : Property} (hp : found.integer? = some p)
    (hx : Double.ofInt? p = some x) (hy : Double.ofInt? n = some y) :
    Condition.holds ⟨property, cmp, .number (.integer n)⟩ found = .ok (cmp.holds x y) := by
  obtain ⟨hnull, hnumber⟩ := Property.asNumber_of_integer? hp
  simp only [Condition.holds, hnull, hnumber, floating, literalNumber, hx, hy]
  rfl

/-- An integer property compared with an integer in a clause, both with a finite floating point
    number near them: where these are different, or the integers are the same, the answer is that of
    the integers; where they are one number, it is that of equal integers, and different
    integers come to that only from 2 ^ 53 on. -/
theorem integers_compared {w property : Text} {find : Lookup}
    (hw : (parse w).map Clause.root = .ok (.condition ⟨property, cmp, .number (.integer n)⟩))
    (hp : (find property).integer? = some p) (hx : Double.ofInt? p = some x) (hy : Double.ofInt? n = some y) :
    ∃ c, parse w = .ok c ∧
      (x ≠ y ∨ p = n → c.holds (some find) = .ok (cmp.relates p n)) ∧
      (x = y → c.holds (some find) = .ok (cmp.relates n n)) ∧
      (x = y → p ≠ n → 2 ^ 53 ≤ p.natAbs ∧ 2 ^ 53 ≤ n.natAbs) := by
  obtain ⟨c, hc, hroot⟩ := exists_of_map_eq_ok hw
  have hholds : c.holds (some find) = .ok (cmp.holds x y) := by
    rw [Clause.holds, hroot]
    exact Condition.holds_integer hp hx hy
  refine ⟨c, hc, fun h => ?_, fun h => ?_, fun h hne => ?_⟩
  · rw [hholds, Comparator.holds_of_apart hx hy h]
  · rw [hholds, h, Comparator.holds_of_meeting hy]
  · have hplace := (Double.ofInt?_inj hx hy).mp h
    constructor
    · exact Nat.le_of_not_lt fun hlt => hne (Double.nearestPlace_inj hplace hlt)
    · exact Nat.le_of_not_lt fun hlt => hne (Double.nearestPlace_inj hplace.symm hlt).symm

/-- Everything has this size. -/
def sized (size : Int) : Lookup := fun name => if name = "size".text then .value (.int size) else .missing

theorem integers_compared_sizes : ∃ c, parse "size > 9007199254740993".text = .ok c ∧
    c.holds (some (sized 9007199254740995)) = .ok true := by
  have hw : (parse "size > 9007199254740993".text).map Clause.root =
      .ok (.condition ⟨"size".text, .greater, .number (.integer 9007199254740993)⟩) := by decide +kernel
  have hx : Double.ofInt? 9007199254740995 = some (.finite false (9007199254740996 * Double.unitsOfOne)) := by
    decide +kernel
  have hy : Double.ofInt? 9007199254740993 = some (.finite false (9007199254740992 * Double.unitsOfOne)) := by
    decide +kernel
  have hp : (sized 9007199254740995 "size".text).integer? = some 9007199254740995 := rfl
  obtain ⟨c, hc, hexact, -⟩ := integers_compared hw hp hx hy
  exact ⟨c, hc, hexact (Or.inl (by decide +kernel))⟩

/-- The first two integers that meet in one floating point number are taken for equal. -/
theorem neighbours_taken_for_equal : ∃ c, parse "size = 9007199254740992".text = .ok c ∧
    c.root = .condition ⟨"size".text, .equal, .number (.integer 9007199254740992)⟩ ∧
    (sized 9007199254740993 "size".text).integer? = some 9007199254740993 ∧
    c.holds (some (sized 9007199254740993)) = .ok true ∧
    Comparator.equal.relates 9007199254740993 9007199254740992 = false := by
  have hview : (parse "size = 9007199254740992".text).toOption.map
      (fun c => (c.root, c.holds (some (sized 9007199254740993)))) =
      some (.condition ⟨"size".text, .equal, .number (.integer 9007199254740992)⟩, .ok true) := by decide +kernel
  obtain ⟨c, hc, hroot⟩ := exists_of_toOption hview
  obtain ⟨hroot, hholds⟩ := Prod.mk.inj hroot
  exact ⟨c, hc, hroot, rfl, hholds, rfl⟩

end Where

end Errand
