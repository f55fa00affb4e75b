/-
  Errand.Text.CodePoint — what texts are made of.

  The numbers below 0x110000 are the code points. Most of them are characters; the
  2048 from 0xD800 on are the halves of surrogate pairs, and such a half may stand
  in a text alone. It is no letter, no digit and no blank, and has no other case.

  A code point is known by its number (`ofNat_toNat`, `toNat_inj`).
-/

namespace Errand

/-- A code point: a character, or half of a surrogate pair. -/
inductive CodePoint where
  | char (c : Char)
  | half (offset : Fin 2048)
  deriving DecidableEq, Repr, Inhabited

namespace CodePoint

instance : Coe Char CodePoint := ⟨.char⟩

/-- How many code points there are. -/
def count : Nat := 0x110000

/-- The first half of a surrogate pair. -/
def firstHalf : Nat := 0xD800

/-- The number of a code point. -/
def toNat : CodePoint → Nat
  | .char c => c.toNat
  | .half offset => firstHalf + offset

/-- The code point of a number; a number beyond all of them counts as zero. -/
def ofNat (n : Nat) : CodePoint :=
  if firstHalf ≤ n ∧ n < firstHalf + 2048 then .half (Fin.ofNat 2048 (n - firstHalf))
  else .char (Char.ofNat n)

theorem ofNat_toNat (c : CodePoint) : ofNat c.toNat = c := by
  cases c with
  | half offset => simp [toNat, ofNat]
  | char c =>
    have h : ¬(firstHalf ≤ c.toNat ∧ c.toNat < firstHalf + 2048) := by
      have hv : c.toNat < 0xD800 ∨ 0xDFFF < c.toNat ∧ c.toNat < 0x110000 := c.valid
      simp only [firstHalf]
      omega
    simp [toNat, ofNat, h]

/-- Different code points have different numbers. -/
theorem toNat_inj {a b : CodePoint} (h : a.toNat = b.toNat) : a = b := by
  rw [← ofNat_toNat a, h, ofNat_toNat]

theorem toNat_lt (c : CodePoint) : c.toNat < count := by
  cases c with
  | half offset =>
    have hlt := offset.isLt
    simp only [toNat, firstHalf, count]
    omega
  | char c =>
    have hv : c.toNat < 0xD800 ∨ 0xDFFF < c.toNat ∧ c.toNat < 0x110000 := c.valid
    simp only [toNat, count]
    omega

/-- Code points in the order of their numbers. -/
instance : LE CodePoint := ⟨fun a b => a.toNat ≤ b.toNat⟩

instance : LT CodePoint := ⟨fun a b => a.toNat < b.toNat⟩

instance (a b : CodePoint) : Decidable (a ≤ b) := inferInstanceAs (Decidable (a.toNat ≤ b.toNat))

instance (a b : CodePoint) : Decidable (a < b) := inferInstanceAs (Decidable (a.toNat < b.toNat))

instance : Std.IsLinearOrder CodePoint where
  le_refl c := Nat.le_refl c.toNat
  le_trans _ _ _ := Nat.le_trans
  le_antisymm _ _ h h' := toNat_inj (Nat.le_antisymm h h')
  le_total a b := Nat.le_total a.toNat b.toNat

instance : Std.LawfulOrderLT CodePoint where
  lt_iff _ _ := Nat.lt_iff_le_and_not_ge

/-! ## The basic letters and digits -/

def isDigit : CodePoint → Bool
  | .char c => c.isDigit
  | .half _ => false

def isAlpha : CodePoint → Bool
  | .char c => c.isAlpha
  | .half _ => false

def isAlphanum : CodePoint → Bool
  | .char c => c.isAlphanum
  | .half _ => false

def toLower : CodePoint → CodePoint
  | .char c => .char c.toLower
  | .half offset => .half offset

def toUpper : CodePoint → CodePoint
  | .char c => .char c.toUpper
  | .half offset => .half offset

end CodePoint

/-- A text is the list of its code points. -/
abbrev Text := List CodePoint

end Errand

/-- The code points of a string. -/
def String.text (s : String) : Errand.Text := s.toList.map .char
