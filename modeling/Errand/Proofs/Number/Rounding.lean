/-
  Errand.Proofs.Number.Rounding — the floating point number nearest to an integer.

  Among the numbers of units that a significand has room for (`HasRoom`), rounding takes a
  nearest one (`roundUnits_nearest`). That alone settles what the order of integers becomes:
  a number that has room is left as it is, and of two numbers the larger one is not rounded
  to the smaller place (`roundUnits_mono`). So integers stand in the order of their floating
  point numbers, except that different ones can meet in one, and then both have
  more than 53 bits or just as many as 2 ^ 53 has (`nearestPlace_inj`).
-/

import Errand.Proofs.Text.Numerals
import Mathlib.Data.Nat.Dist

namespace Errand.Double

/-! ## Numbers a significand has room for -/

/-- Units that a significand has room for, shifted to their place. -/
def HasRoom (units : Nat) : Prop := ∃ significand shift, significand < 2 ^ precision ∧ units = significand * 2 ^ shift

theorem hasRoom_shifted {significand : Nat} (h : significand ≤ 2 ^ precision) (shift : Nat) :
    HasRoom (significand * 2 ^ shift) := by
  rcases Nat.lt_or_eq_of_le h with hlt | rfl
  · exact ⟨significand, shift, hlt, rfl⟩
  · refine ⟨1, precision + shift, by decide, ?_⟩
    rw [Nat.one_mul, Nat.pow_add]

/-- From the power of two on that a number begins with, whatever has room is a multiple of the unit
    in the last place of that number. -/
theorem HasRoom.dvd {units g : Nat} (hg : HasRoom g) (h : 2 ^ units.log2 ≤ g) : 2 ^ spareBits units ∣ g := by
  obtain ⟨significand, shift, hsignificand, rfl⟩ := hg
  refine Nat.dvd_trans (Nat.pow_dvd_pow 2 (Nat.le_of_not_lt fun hshift => ?_)) (Nat.dvd_mul_left _ _)
  have hlt : significand * 2 ^ shift < 2 ^ precision * 2 ^ shift :=
    Nat.mul_lt_mul_of_pos_right hsignificand (Nat.two_pow_pos _)
  have hle : 2 ^ precision * 2 ^ shift ≤ 2 ^ units.log2 := by
    rw [← Nat.pow_add]
    refine Nat.pow_le_pow_right (by decide) ?_
    unfold spareBits at hshift
    omega
  omega

/-! ## Rounding -/

variable {num den n m : Nat}

theorem roundQuotient_le : roundQuotient num den ≤ num / den + 1 := by
  unfold roundQuotient
  dsimp only
  split_ifs <;> omega

/-- No multiple of the denominator is nearer than the one rounded to. -/
theorem roundQuotient_nearest (hden : 0 < den) (k : Nat) :
    Nat.dist (roundQuotient num den * den) num ≤ Nat.dist (k * den) num := by
  have hdiv := Nat.div_add_mod' num den
  have hmod := Nat.mod_lt num hden
  have hsucc := Nat.add_one_mul (num / den) den
  have hk : k * den ≤ num / den * den ∨ (num / den + 1) * den ≤ k * den := by
    rcases Nat.lt_or_ge (num / den) k with hlt | hge
    · exact Or.inr (Nat.mul_le_mul_right den hlt)
    · exact Or.inl (Nat.mul_le_mul_right den hge)
  unfold roundQuotient Nat.dist
  dsimp only
  split_ifs <;> omega

theorem roundUnits_eq (n : Nat) : roundUnits n 1 = roundQuotient n (2 ^ spareBits n) * 2 ^ spareBits n := by
  unfold roundUnits
  dsimp only
  rw [Nat.div_one, Nat.one_mul]
  rfl

theorem roundUnits_hasRoom (n : Nat) : HasRoom (roundUnits n 1) := by
  rw [roundUnits_eq]
  refine hasRoom_shifted (Nat.le_trans roundQuotient_le ?_) _
  rw [Nat.succ_le_iff, Nat.div_lt_iff_lt_mul (Nat.two_pow_pos _), ← Nat.pow_add]
  refine Nat.lt_of_lt_of_le Nat.lt_log2_self (Nat.pow_le_pow_right (by decide) ?_)
  unfold spareBits
  omega

/-- No number that a significand has room for is nearer than the one rounded to. -/
theorem roundUnits_nearest {g : Nat} (hg : HasRoom g) (n : Nat) : Nat.dist (roundUnits n 1) n ≤ Nat.dist g n := by
  rcases Nat.eq_zero_or_pos n with rfl | hn
  · rw [show roundUnits 0 1 = 0 from rfl, Nat.dist_self]
    exact Nat.zero_le _
  have hmultiple {k : Nat} (hk : 2 ^ spareBits n ∣ k) : Nat.dist (roundUnits n 1) n ≤ Nat.dist k n := by
    obtain ⟨k, rfl⟩ := hk
    rw [roundUnits_eq, Nat.mul_comm _ k]
    exact roundQuotient_nearest (Nat.two_pow_pos _) k
  have hstart := Nat.log2_self_le (Nat.pos_iff_ne_zero.mp hn)
  rcases Nat.lt_or_ge g (2 ^ n.log2) with hlow | hhigh
  · -- the power of two that the number begins with is nearer than anything below it
    have hpower : HasRoom (2 ^ n.log2) := by
      have hone : HasRoom (1 * 2 ^ n.log2) := hasRoom_shifted (by decide) n.log2
      rwa [Nat.one_mul] at hone
    refine Nat.le_trans (hmultiple (hpower.dvd (Nat.le_refl _))) ?_
    unfold Nat.dist
    omega
  · exact hmultiple (hg.dvd hhigh)

/-- What a significand has room for stays as it is. -/
theorem HasRoom.roundUnits (h : HasRoom n) : roundUnits n 1 = n := by
  have hnear := roundUnits_nearest h n
  rw [Nat.dist_self] at hnear
  exact Nat.eq_of_dist_eq_zero (Nat.le_zero.mp hnear)

/-- Two numbers whose places were in the other order would both lie halfway between them. -/
theorem roundUnits_mono (h : n ≤ m) : roundUnits n 1 ≤ roundUnits m 1 := by
  have hn := roundUnits_nearest (roundUnits_hasRoom m) n
  have hm := roundUnits_nearest (roundUnits_hasRoom n) m
  rcases Nat.eq_or_lt_of_le h with rfl | hlt
  · exact Nat.le_refl _
  · unfold Nat.dist at hn hm
    omega

/-! ## Integers -/

/-- The place of the floating point number nearest to an integer, if it is finite. -/
def nearestPlace (n : Int) : Int :=
  if n < 0 then -(roundUnits (n.natAbs * unitsOfOne) 1 : Int) else roundUnits (n.natAbs * unitsOfOne) 1

theorem unitsOfOne_eq : unitsOfOne = 2 ^ unitExponent := by
  delta unitsOfOne
  rw [Nat.pow_eq]

theorem unitsOfOne_pos : 0 < unitsOfOne := by
  rw [unitsOfOne_eq]
  exact Nat.two_pow_pos _

/-- A whole number of up to 53 bits has a floating point number of its own. -/
theorem roundUnits_whole {k : Nat} (h : k ≤ 2 ^ precision) : roundUnits (k * unitsOfOne) 1 = k * unitsOfOne := by
  rw [unitsOfOne_eq]
  exact (hasRoom_shifted h _).roundUnits

theorem roundUnits_whole_mono {k l : Nat} (h : k ≤ l) :
    roundUnits (k * unitsOfOne) 1 ≤ roundUnits (l * unitsOfOne) 1 :=
  roundUnits_mono (Nat.mul_le_mul_right _ h)

/-- A whole number of up to 53 bits shares its floating point number with no other. -/
theorem roundUnits_whole_inj {k l : Nat} (hk : k < 2 ^ precision)
    (h : roundUnits (k * unitsOfOne) 1 = roundUnits (l * unitsOfOne) 1) : k = l := by
  rw [roundUnits_whole (Nat.le_of_lt hk)] at h
  rcases Nat.lt_trichotomy k l with hlt | heq | hgt
  · have hnext := roundUnits_whole_mono (Nat.succ_le_of_lt hlt)
    rw [roundUnits_whole hk, ← h, Nat.succ_mul] at hnext
    have := unitsOfOne_pos
    omega
  · exact heq
  · rw [roundUnits_whole (Nat.le_of_lt (Nat.lt_trans hgt hk))] at h
    exact Nat.eq_of_mul_eq_mul_right unitsOfOne_pos h

theorem ofInt?_eq_some {n : Int} {x : Double} (h : ofInt? n = some x) :
    x = .finite (decide (n < 0)) (roundUnits (n.natAbs * unitsOfOne) 1) := by
  rw [ofInt?_eq, ofRatio_eq] at h
  split at h
  · cases h
    rfl
  · cases h

theorem place?_of_ofInt? {n : Int} {x : Double} (h : ofInt? n = some x) : x.place? = some (nearestPlace n) := by
  rw [ofInt?_eq_some h, place?, nearestPlace]
  simp only [decide_eq_true_eq]

theorem nearestPlace_mono {n m : Int} (h : n ≤ m) : nearestPlace n ≤ nearestPlace m := by
  unfold nearestPlace
  split
  · split
    · have := roundUnits_whole_mono (show m.natAbs ≤ n.natAbs by omega)
      omega
    · omega
  · have := roundUnits_whole_mono (show n.natAbs ≤ m.natAbs by omega)
    rw [if_neg (by omega)]
    omega

/-- Nothing but zero is rounded to zero. -/
theorem roundUnits_pos {k : Nat} (h : 0 < k) : 0 < roundUnits (k * unitsOfOne) 1 := by
  refine Nat.lt_of_lt_of_le ?_ (roundUnits_whole_mono h)
  rw [roundUnits_whole (by decide)]
  exact Nat.mul_pos (by decide) unitsOfOne_pos

/-- Integers at one place have the same sign and the same size after rounding. -/
theorem units_of_nearestPlace {n m : Int} (h : nearestPlace n = nearestPlace m) :
    (n < 0 ↔ m < 0) ∧ roundUnits (n.natAbs * unitsOfOne) 1 = roundUnits (m.natAbs * unitsOfOne) 1 := by
  unfold nearestPlace at h
  split at h
  · have := roundUnits_pos (show 0 < n.natAbs by omega)
    split at h <;> omega
  · split at h
    · have := roundUnits_pos (show 0 < m.natAbs by omega)
      omega
    · omega

theorem ofInt?_inj {n m : Int} {x y : Double} (hx : ofInt? n = some x) (hy : ofInt? m = some y) :
    x = y ↔ nearestPlace n = nearestPlace m := by
  constructor
  · rintro rfl
    exact Option.some.inj ((place?_of_ofInt? hx).symm.trans (place?_of_ofInt? hy))
  · intro h
    obtain ⟨hsign, hunits⟩ := units_of_nearestPlace h
    rw [ofInt?_eq_some hx, ofInt?_eq_some hy, hunits, decide_eq_decide.mpr hsign]

/-- Different integers meet in one floating point number only from 2 ^ 53 on. -/
theorem nearestPlace_inj {n m : Int} (h : nearestPlace n = nearestPlace m) (hn : n.natAbs < 2 ^ precision) : n = m := by
  obtain ⟨hsign, hunits⟩ := units_of_nearestPlace h
  have := roundUnits_whole_inj hn hunits
  omega

end Errand.Double
