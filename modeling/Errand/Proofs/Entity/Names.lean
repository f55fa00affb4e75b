/-
  Errand.Proofs.Entity.Names — names that read alike.

  A clause compares what names are shown as, and without regard to case; a store compares
  the names themselves. For two texts this is the same, and it is for two rows of bytes, which
  are shown in a way that can be undone: `readByte?` takes one byte off what is shown, in
  small letters too (`readByte?_shown`). Between a text and bytes it is not: a text can be
  what bytes are shown as.
-/

import Errand.Entity.Name

namespace Errand

/-! ## Small letters of basic characters -/

theorem Text.lowerFrom_basic {t : Text} (h : ∀ c ∈ t, c.toNat < 128) (before : Text) :
    lowerFrom before t = t.map CodePoint.toLower := by
  induction t generalizing before with
  | nil => rfl
  | cons c t ih =>
    obtain ⟨hc, ht⟩ := List.forall_mem_cons.mp h
    have hsigma : c ≠ 'Σ' := by
      rintro rfl
      exact absurd hc (by decide)
    rw [lowerFrom, if_neg hsigma, smallChar, if_pos hc, ih ht]
    rfl

theorem Text.lower_basic {t : Text} (h : ∀ c ∈ t, c.toNat < 128) : lower t = t.map CodePoint.toLower :=
  lowerFrom_basic h []

namespace Bytes

/-! ## Reading what bytes are shown as -/

/-- The value of a small hexadecimal digit. -/
def hexValue (c : CodePoint) : Nat := if c.toNat < 97 then c.toNat - 48 else c.toNat - 87

/-- The byte of two hexadecimal digits, and what follows. -/
def readHex? : Text → Option (UInt8 × Text)
  | a :: b :: rest => some (UInt8.ofNat (16 * hexValue a + hexValue b), rest)
  | _ => none

/-- The byte of what stands behind a backslash, and what follows. -/
def readEscape? : Text → Option (UInt8 × Text)
  | c :: rest =>
    if c = 'x' then readHex? rest
    else some (if c = 'n' then 10 else if c = 'r' then 13 else if c = 't' then 9 else UInt8.ofNat c.toNat, rest)
  | [] => none

/-- The byte that is shown here, and what follows. -/
def readByte? : Text → Option (UInt8 × Text)
  | c :: rest => if c = '\\' then readEscape? rest else some (UInt8.ofNat c.toNat, rest)
  | [] => none

/-- A byte as shown, in small letters. -/
def smallShown (quote : CodePoint) (b : UInt8) : Text := (shownByte quote b).map CodePoint.toLower

/-- The small form of one byte. -/
def smallByte (b : UInt8) : UInt8 := if 65 ≤ b && b ≤ 90 then b + 32 else b

theorem forall_byte {p : UInt8 → Prop} (h : ∀ n : Fin 256, p (UInt8.ofNat n)) (b : UInt8) : p b := by
  have hb := h ⟨b.toNat, b.toNat_lt⟩
  rwa [UInt8.ofNat_toNat] at hb

theorem shownByte_basic {quote : CodePoint} (hq : quote = '\'' ∨ quote = '"') (b : UInt8) :
    ∀ c ∈ shownByte quote b, c.toNat < 128 := by
  rcases hq with rfl | rfl
  · exact forall_byte (p := fun b => ∀ c ∈ shownByte '\'' b, c.toNat < 128) (by decide +kernel) b
  · exact forall_byte (p := fun b => ∀ c ∈ shownByte '"' b, c.toNat < 128) (by decide +kernel) b

theorem readByte?_alone {quote : CodePoint} (hq : quote = '\'' ∨ quote = '"') (b : UInt8) :
    readByte? (smallShown quote b) = some (smallByte b, []) := by
  rcases hq with rfl | rfl
  · exact forall_byte (p := fun b => readByte? (smallShown '\'' b) = some (smallByte b, [])) (by decide +kernel) b
  · exact forall_byte (p := fun b => readByte? (smallShown '"' b) = some (smallByte b, [])) (by decide +kernel) b

theorem readHex?_append {t : Text} {b : UInt8} (h : readHex? t = some (b, [])) (rest : Text) :
    readHex? (t ++ rest) = some (b, rest) := by
  rcases t with _ | ⟨c, _ | ⟨d, t⟩⟩
  · cases h
  · cases h
  · cases h
    rfl

theorem readEscape?_append {t : Text} {b : UInt8} (h : readEscape? t = some (b, [])) (rest : Text) :
    readEscape? (t ++ rest) = some (b, rest) := by
  rcases t with _ | ⟨c, t⟩
  · cases h
  rw [readEscape?] at h
  rw [List.cons_append, readEscape?]
  by_cases hc : c = 'x'
  · rw [if_pos hc] at h ⊢
    exact readHex?_append h rest
  · rw [if_neg hc] at h ⊢
    cases h
    rfl

/-- What was read to the end is read the same with a text behind it. -/
theorem readByte?_append {t : Text} {b : UInt8} (h : readByte? t = some (b, [])) (rest : Text) :
    readByte? (t ++ rest) = some (b, rest) := by
  rcases t with _ | ⟨c, t⟩
  · cases h
  rw [readByte?] at h
  rw [List.cons_append, readByte?]
  by_cases hc : c = '\\'
  · rw [if_pos hc] at h ⊢
    exact readEscape?_append h rest
  · rw [if_neg hc] at h ⊢
    cases h
    rfl

theorem readByte?_shown {quote : CodePoint} (hq : quote = '\'' ∨ quote = '"') (b : UInt8) (rest : Text) :
    readByte? (smallShown quote b ++ rest) = some (smallByte b, rest) :=
  readByte?_append (readByte?_alone hq b) rest

theorem map_smallByte (bs : Bytes) : bs.map smallByte = bs.lower := rfl

/-- Rows of bytes that are shown alike differ in small and capital letters at most. -/
theorem lower_eq_of_shown {quote : CodePoint} (hq : quote = '\'' ∨ quote = '"') {bs bs' : Bytes}
    (h : bs.flatMap (smallShown quote) = bs'.flatMap (smallShown quote)) : bs.lower = bs'.lower := by
  induction bs generalizing bs' with
  | nil =>
    rcases bs' with _ | ⟨b', bs'⟩
    · rfl
    · have hread := readByte?_shown hq b' (bs'.flatMap (smallShown quote))
      rw [← List.flatMap_cons, ← h] at hread
      cases hread
  | cons b bs ih =>
    have hread := readByte?_shown hq b (bs.flatMap (smallShown quote))
    rw [← List.flatMap_cons, h] at hread
    rcases bs' with _ | ⟨b', bs'⟩
    · cases hread
    · rw [List.flatMap_cons, readByte?_shown hq b', Option.some.injEq, Prod.mk.injEq] at hread
      rw [← map_smallByte, ← map_smallByte, List.map_cons, List.map_cons, hread.1, map_smallByte, map_smallByte,
        ih hread.2.symm]

theorem quoteFor_cases (t : Text) : Text.quoteFor t = '\'' ∨ Text.quoteFor t = '"' := by
  rw [Text.quoteFor]
  split
  · exact Or.inr rfl
  · exact Or.inl rfl

theorem lower_shown (bs : Bytes) : ∃ quote : CodePoint, (quote = '\'' ∨ quote = '"') ∧
    Text.lower bs.shown = .char 'b' :: quote :: (bs.flatMap (smallShown quote) ++ [quote]) := by
  obtain ⟨quote, hquote⟩ : ∃ quote, Text.quoteFor (bs.map fun b => CodePoint.ofNat b.toNat) = quote := ⟨_, rfl⟩
  have hq : quote = '\'' ∨ quote = '"' := hquote ▸ quoteFor_cases _
  have hbasic : quote.toNat < 128 ∧ quote.toLower = quote := by
    rcases hq with rfl | rfl
    · decide
    · decide
  have hshown : bs.shown = .char 'b' :: quote :: (bs.flatMap (shownByte quote) ++ [quote]) := by
    rw [shown, hquote]
    rfl
  refine ⟨quote, hq, ?_⟩
  rw [hshown, Text.lower_basic]
  · rw [List.map_cons, List.map_cons, List.map_append, List.map_flatMap, List.map_singleton, hbasic.2]
    rfl
  · intro c hc
    simp only [List.mem_cons, List.mem_append, List.mem_flatMap, List.not_mem_nil, or_false] at hc
    rcases hc with rfl | rfl | ⟨b, -, hc⟩ | rfl
    · decide
    · exact hbasic.1
    · exact shownByte_basic hq b c hc
    · exact hbasic.1

theorem lower_eq_of_shown_alike {bs bs' : Bytes} (h : Text.lower bs.shown = Text.lower bs'.shown) : bs.lower = bs'.lower := by
  obtain ⟨quote, hq, hshown⟩ := lower_shown bs
  obtain ⟨quote', -, hshown'⟩ := lower_shown bs'
  rw [hshown, hshown'] at h
  simp only [List.cons.injEq, true_and] at h
  obtain ⟨rfl, hbody⟩ := h
  exact lower_eq_of_shown hq (List.append_cancel_right hbody)

end Bytes

namespace Name

/-- Two texts, or two rows of bytes, that are shown alike are the same name. -/
theorem lower_eq_of_display {a b : Name} (hkind : a.isText = b.isText)
    (h : Text.lower a.display = Text.lower b.display) : a.lower = b.lower := by
  cases a with
  | text t =>
    cases b with
    | text u => exact congrArg Name.text h
    | bytes _ => cases hkind
  | bytes bs =>
    cases b with
    | text _ => cases hkind
    | bytes bs' => exact congrArg Name.bytes (Bytes.lower_eq_of_shown_alike h)

end Name

end Errand
