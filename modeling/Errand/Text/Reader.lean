/-
  Errand.Text.Reader — the small readers that grammars, wildcards and where
  clauses are read with.

  A reader takes the text from the place of reading on and gives what it found
  together with the text behind it; one that finds nothing consumes nothing.
  Letters, digits and spaces are the basic ones here, whatever the script of the
  text around them.
-/

import Errand.Text.Basic
import Errand.Number.Numeral

namespace Errand

namespace Reader

/-! ## Classes of characters -/

/-- The spaces that may stand between tokens. -/
def isSpace (c : CodePoint) : Bool :=
  c == ' ' || c == '\t' || c == '\n' || c == '\r' || c == '\x0c' || c == '\x0b'

def isSmall (c : CodePoint) : Bool := 'a' ≤ c && c ≤ 'z'

def isLetter (c : CodePoint) : Bool := ('a' ≤ c && c ≤ 'z') || ('A' ≤ c && c ≤ 'Z')

def isDigit (c : CodePoint) : Bool := '0' ≤ c && c ≤ '9'

/-- The characters of a name after its first. -/
def isNameChar (c : CodePoint) : Bool := isLetter c || isDigit c || c == '_'

/-! ## Words -/

def dropSpaces (t : Text) : Text := t.dropWhile isSpace

/-- What follows a given character. -/
def char? (c : CodePoint) : Text → Option Text
  | x :: rest => if x = c then some rest else none
  | [] => none

/-- What follows a given word that no name character continues. -/
def keyword? (word t : Text) : Option Text :=
  if word.isPrefixOf t then
    match t.drop word.length with
    | c :: rest => if isNameChar c then none else some (c :: rest)
    | [] => some []
  else none

/-- A run of small letters, empty if none stands here. -/
def smallRun (t : Text) : Text × Text := (t.takeWhile isSmall, t.dropWhile isSmall)

/-- A name: a letter or an underscore, then letters, digits and underscores. -/
def name? : Text → Option (Text × Text)
  | c :: rest =>
    if isLetter c || c == '_' then some (c :: rest.takeWhile isNameChar, rest.dropWhile isNameChar)
    else none
  | [] => none

/-- A run of at least one and at most `most` digits. -/
def digits? (most : Nat) (t : Text) : Option (Text × Text) :=
  let run := t.takeWhile isDigit
  if run.isEmpty || most < run.length then none else some (run, t.dropWhile isDigit)

/-! ## Quoted texts -/

def isQuote (c : CodePoint) : Bool := c == '\'' || c == '"'

/-- The inside of a quoted text, up to the quote that ends it, and what follows.
    A backslash takes its special sense from the quote in use and from itself;
    before any other character both stand for themselves. -/
def quotedBody? (quote : CodePoint) : Text → Option (Text × Text)
  | [] => none
  | c :: rest =>
    if c = quote then some ([], rest)
    else if c = '\\' then
      match rest with
      | [] => none
      | d :: more =>
        (quotedBody? quote more).map fun (inside, after) =>
          ((if d = quote || d = '\\' then [d] else [c, d]) ++ inside, after)
    else (quotedBody? quote rest).map fun (inside, after) => (c :: inside, after)

/-- A text in single or double quotes. -/
def quoted? : Text → Option (Text × Text)
  | c :: rest => if isQuote c then quotedBody? c rest else none
  | [] => none

/-- What follows the quote that ends a quoted text; nothing if none does. -/
def afterQuotedBody (quote : CodePoint) : Text → Text
  | [] => []
  | .char '\\' :: [] => []
  | .char '\\' :: _ :: rest => afterQuotedBody quote rest
  | c :: rest => if c = quote then rest else afterQuotedBody quote rest

/-- What follows the quoted text that begins here. -/
def afterQuoted : Text → Text
  | quote :: rest => afterQuotedBody quote rest
  | [] => []

/-! ## Words and marks -/

theorem char?_eq_some_iff {c : CodePoint} {t after : Text} : char? c t = some after ↔ t = c :: after := by
  cases t with
  | nil => simp [char?]
  | cons d t =>
    by_cases h : d = c
    · simp [char?, h]
    · simp [char?, h]

/-- A keyword is one that no name character continues. -/
theorem keyword?_eq_some_iff {word t after : Text} : keyword? word t = some after ↔
    t = word ++ after ∧ ∀ c ∈ after.head?, isNameChar c = false := by
  unfold keyword?
  by_cases hp : word.isPrefixOf t = true
  · obtain ⟨rest, rfl⟩ := List.isPrefixOf_iff_prefix.mp hp
    rw [if_pos hp, List.drop_left]
    cases rest with
    | nil =>
      constructor
      · intro h
        cases h
        simp
      · rintro ⟨h, -⟩
        have hafter : ([] : Text) = after := List.append_cancel_left h
        subst hafter
        rfl
    | cons c rest =>
      by_cases hc : isNameChar c = true
      · simp only [hc, if_true]
        constructor
        · intro h
          cases h
        · rintro ⟨h, hn⟩
          rw [← List.append_cancel_left h] at hn
          rw [hn c rfl] at hc
          cases hc
      · simp only [hc]
        constructor
        · intro h
          cases h
          simp [hc]
        · rintro ⟨h, -⟩
          rw [← List.append_cancel_left h]
          rfl
  · rw [if_neg hp]
    constructor
    · intro h
      cases h
    · rintro ⟨rfl, -⟩
      exact absurd (List.isPrefixOf_iff_prefix.mpr (List.prefix_append word after)) hp

theorem name?_eq_some {t word after : Text} (h : name? t = some (word, after)) :
    ∃ c rest, t = c :: rest ∧ (isLetter c || c == '_') = true ∧ word = c :: rest.takeWhile isNameChar ∧
      after = rest.dropWhile isNameChar := by
  unfold name? at h
  split at h
  · rename_i c rest
    split at h
    · rename_i hc
      cases h
      exact ⟨c, rest, rfl, hc, rfl, rfl⟩
    · cases h
  · cases h

theorem digits?_suffix {most : Nat} {t run after : Text} (h : digits? most t = some (run, after)) : after <:+ t := by
  unfold digits? at h
  dsimp only at h
  split at h
  · cases h
  · cases h
    exact List.dropWhile_suffix _

/-! ## What readers leave is shorter -/

theorem length_dropWhile_le (p : CodePoint → Bool) (t : Text) : (t.dropWhile p).length ≤ t.length :=
  (List.dropWhile_suffix p).length_le

theorem length_dropWhile_lt {p : CodePoint → Bool} {t : Text} (h : (t.takeWhile p).isEmpty = false) :
    (t.dropWhile p).length < t.length := by
  cases t with
  | nil => simp at h
  | cons c rest =>
    by_cases hc : p c
    · have := length_dropWhile_le p rest
      simp only [List.dropWhile_cons, hc, if_true, List.length_cons]
      omega
    · simp [hc] at h

/-- A quoted text ends at a quote. -/
theorem quotedBody?_closes {quote : CodePoint} {t inside after : Text}
    (h : quotedBody? quote t = some (inside, after)) : (quote :: after) <:+ t := by
  fun_induction quotedBody? quote t generalizing inside after with
  | case1 => cases h
  | case2 rest =>
    cases h
    exact List.suffix_refl _
  | case3 => cases h
  | case4 d more _ ih =>
    obtain ⟨⟨inside', after'⟩, hrest, h⟩ := Option.map_eq_some_iff.mp h
    cases h
    exact (ih hrest).trans ((List.suffix_cons d more).trans (List.suffix_cons _ _))
  | case5 c rest _ _ ih =>
    obtain ⟨⟨inside', after'⟩, hrest, h⟩ := Option.map_eq_some_iff.mp h
    cases h
    exact (ih hrest).trans (List.suffix_cons _ _)

theorem quotedBody?_length {quote : CodePoint} {t inside after : Text}
    (h : quotedBody? quote t = some (inside, after)) : after.length < t.length :=
  (quotedBody?_closes h).length_le

theorem name?_length {t word after : Text} (h : name? t = some (word, after)) :
    after.length < t.length := by
  obtain ⟨c, rest, rfl, -, -, rfl⟩ := name?_eq_some h
  have := length_dropWhile_le isNameChar rest
  rw [List.length_cons]
  omega

end Reader

/-! ## Numbers -/

/-- A number read from a text: an integer, or a floating point number if it was
    written with a point or an exponent. -/
inductive Number where
  | integer (n : Int)
  | real (x : Double)
  deriving DecidableEq, Repr

/-- The parts a number is written with. -/
structure NumberShape where
  sign : Text
  whole : Text
  fraction : Option Text
  /-- The letter, the sign and the digits. -/
  exponent : Option (CodePoint × Text × Text)

namespace NumberShape

/-- A sign if one stands here. -/
def readSign : Text → Text × Text
  | c :: rest => if c = '+' || c = '-' then ([c], rest) else ([], c :: rest)
  | [] => ([], [])

/-- An exponent if its letter stands here; its digits must follow. -/
def readExponent? : Text → Option (Option (CodePoint × Text × Text) × Text)
  | c :: rest =>
    if c = 'e' || c = 'E' then
      let (sign, afterSign) := readSign rest
      let digits := afterSign.takeWhile Reader.isDigit
      if digits.isEmpty then none
      else some (some (c, sign, digits), afterSign.dropWhile Reader.isDigit)
    else some (none, c :: rest)
  | [] => some (none, [])

/-- The number that begins here. A point needs digits behind it, an exponent its
    own digits. -/
def read? (t : Text) : Option (NumberShape × Text) :=
  let (sign, afterSign) := readSign t
  let whole := afterSign.takeWhile Reader.isDigit
  match afterSign.dropWhile Reader.isDigit with
  | .char '.' :: rest =>
    let fraction := rest.takeWhile Reader.isDigit
    if fraction.isEmpty then none
    else (readExponent? (rest.dropWhile Reader.isDigit)).map fun (exponent, after) =>
      (⟨sign, whole, some fraction, exponent⟩, after)
  | rest =>
    if whole.isEmpty then none
    else (readExponent? rest).map fun (exponent, after) => (⟨sign, whole, none, exponent⟩, after)

/-- The number of a shape; none for an integer with too many digits. -/
def value? (s : NumberShape) : Option Number :=
  let negative := s.sign == "-".text
  match s.fraction, s.exponent with
  | none, none =>
    if Numeral.maxDigits < s.whole.length then none
    else some (.integer (Numeral.signed negative (Numeral.value s.whole)))
  | fraction, exponent =>
    let power := match exponent with
      | some (_, sign, digits) => Numeral.signed (sign == "-".text) (Numeral.value digits)
      | none => 0
    some (.real (Numeral.real negative s.whole (fraction.getD []) power))

/-! ## How a number is read -/

theorem readExponent?_cases {t after : Text} {e : Option (CodePoint × Text × Text)} (h : readExponent? t = some (e, after)) :
    (e = none ∧ after = t) ∨
      ∃ c rest, t = c :: rest ∧ (c = 'e' || c = 'E') = true ∧ (readSign rest).2.takeWhile Reader.isDigit ≠ [] ∧
        e = some (c, (readSign rest).1, (readSign rest).2.takeWhile Reader.isDigit) ∧
        after = (readSign rest).2.dropWhile Reader.isDigit := by
  unfold readExponent? at h
  split at h
  · rename_i c rest
    split at h
    · rename_i hc
      dsimp only at h
      split at h
      · cases h
      · rename_i hdigits
        cases h
        exact Or.inr ⟨c, rest, rfl, hc, fun hnone => hdigits (List.isEmpty_iff.mpr hnone), rfl, rfl⟩
    · cases h
      exact Or.inl ⟨rfl, rfl⟩
  · cases h
    exact Or.inl ⟨rfl, rfl⟩

/-- The parts of a number that a text begins with, and what follows it. -/
inductive Begins (t : Text) : NumberShape → Text → Prop
  | pointed {rest after : Text} {exponent : Option (CodePoint × Text × Text)} :
      (readSign t).2.dropWhile Reader.isDigit = .char '.' :: rest → rest.takeWhile Reader.isDigit ≠ [] →
      readExponent? (rest.dropWhile Reader.isDigit) = some (exponent, after) →
      Begins t ⟨(readSign t).1, (readSign t).2.takeWhile Reader.isDigit, some (rest.takeWhile Reader.isDigit), exponent⟩ after
  | unpointed {after : Text} {exponent : Option (CodePoint × Text × Text)} :
      (∀ rest, (readSign t).2.dropWhile Reader.isDigit ≠ .char '.' :: rest) →
      (readSign t).2.takeWhile Reader.isDigit ≠ [] →
      readExponent? ((readSign t).2.dropWhile Reader.isDigit) = some (exponent, after) →
      Begins t ⟨(readSign t).1, (readSign t).2.takeWhile Reader.isDigit, none, exponent⟩ after

theorem begins_of_read? {t after : Text} {s : NumberShape} (h : read? t = some (s, after)) : Begins t s after := by
  unfold read? at h
  dsimp only at h
  split at h
  · rename_i hpoint
    split at h
    · cases h
    · rename_i hfraction
      obtain ⟨⟨e, after'⟩, hexponent, he⟩ := Option.map_eq_some_iff.mp h
      cases he
      exact .pointed hpoint (fun hnone => hfraction (List.isEmpty_iff.mpr hnone)) hexponent
  · rename_i hpoint
    split at h
    · cases h
    · rename_i hwhole
      obtain ⟨⟨e, after'⟩, hexponent, he⟩ := Option.map_eq_some_iff.mp h
      cases he
      exact .unpointed hpoint (fun hnone => hwhole (List.isEmpty_iff.mpr hnone)) hexponent

/-! ## What is left behind a number is shorter -/

theorem readSign_length (t : Text) : (readSign t).2.length ≤ t.length := by
  unfold readSign
  split
  · split <;> simp
  · simp

theorem readExponent?_length {t after : Text} {e : Option (CodePoint × Text × Text)}
    (h : readExponent? t = some (e, after)) : after.length ≤ t.length := by
  rcases readExponent?_cases h with ⟨-, rfl⟩ | ⟨c, rest, rfl, -, -, -, rfl⟩
  · exact Nat.le_refl _
  · have hsign := readSign_length rest
    have hdigits := Reader.length_dropWhile_le Reader.isDigit (readSign rest).2
    rw [List.length_cons]
    omega

theorem read?_length {t after : Text} {s : NumberShape} (h : read? t = some (s, after)) :
    after.length < t.length := by
  have hsign := readSign_length t
  cases begins_of_read? h with
  | @pointed rest _ _ hpoint _ hexponent =>
    have hwhole := Reader.length_dropWhile_le Reader.isDigit (readSign t).2
    have hfraction := Reader.length_dropWhile_le Reader.isDigit rest
    have hlength := readExponent?_length hexponent
    rw [hpoint, List.length_cons] at hwhole
    omega
  | unpointed _ hne hexponent =>
    have hwhole := Reader.length_dropWhile_lt (Bool.eq_false_iff.mpr fun hnone => hne (List.isEmpty_iff.mp hnone))
    have hlength := readExponent?_length hexponent
    omega

end NumberShape

end Errand
