/-
  Errand.Where.Token — the tokens of a where clause.

  A clause is written in names, comparators, literals, the connectives and, or
  and xor, and the word not; small and capital letters do not matter in these
  words and in true, false and null. Spaces may stand between any two tokens and
  are needed between none that touch without melting into one.

  `tokens` reads a whole clause. What a token can be and how it is read is said in
  one place (`Token.Begins`). Every token is at least one character of the clause,
  so the reading ends (`Token.read_length`).
-/

import Errand.Text.Reader
import Errand.Text.Display

namespace Errand.Where

/-! ## What tokens stand for -/

inductive Comparator where
  | equal
  | unequal
  | greater
  | atLeast
  | less
  | atMost
  /-- A comparator that no clause can be written with. -/
  | other (sign : Text)
  deriving DecidableEq, Repr

namespace Comparator

def sign : Comparator → Text
  | .equal => "=".text
  | .unequal => "!=".text
  | .greater => ">".text
  | .atLeast => ">=".text
  | .less => "<".text
  | .atMost => "<=".text
  | .other sign => sign

def ofSign (sign : Text) : Comparator :=
  ([.equal, .unequal, .greater, .atLeast, .less, .atMost].find? (·.sign == sign)).getD (.other sign)

/-- Comparators of size need numbers on both sides. -/
def isOrdering : Comparator → Bool
  | .greater | .atLeast | .less | .atMost => true
  | _ => false

/-- The comparator that begins here; `==` is another spelling of `=`, and `<>` of
    `!=`. -/
def read? : Text → Option (Comparator × Text)
  | .char '=' :: .char '=' :: rest => some (.equal, rest)
  | .char '=' :: rest => some (.equal, rest)
  | .char '!' :: .char '=' :: rest => some (.unequal, rest)
  | .char '>' :: .char '=' :: rest => some (.atLeast, rest)
  | .char '>' :: rest => some (.greater, rest)
  | .char '<' :: .char '=' :: rest => some (.atMost, rest)
  | .char '<' :: .char '>' :: rest => some (.unequal, rest)
  | .char '<' :: rest => some (.less, rest)
  | _ => none

end Comparator

/-- What joins two terms of a clause. -/
inductive Connective where
  | and
  | or
  | xor
  /-- A connective that no clause can be written with. -/
  | other (word : Text)
  deriving DecidableEq, Repr

namespace Connective

def word : Connective → Text
  | .and => "and".text
  | .or => "or".text
  | .xor => "xor".text
  | .other word => word

def ofWord (word : Text) : Connective :=
  ([.and, .or, .xor].find? (·.word == word)).getD (.other word)

end Connective

/-- What a value given for a number comes to. -/
inductive GivenNumber where
  | number (x : Double)
  /-- A text that is no numeral. -/
  | notNumeral
  /-- Neither a number nor a text. -/
  | notNumber
  deriving DecidableEq, Repr

/-- What a property is compared with. A clause is written with the first four; the
    others hold values given for a literal of another kind than theirs. -/
inductive Literal where
  | text (t : Text)
  | number (n : Number)
  | bool (b : Bool)
  | null
  /-- A value for a number. -/
  | asNumber (written : Text) (x : GivenNumber)
  /-- A value for a truth value: whether it counts as true, and the truth value
      that it is the same as. -/
  | asTruth (counts : Bool) (truth : Option Bool)
  /-- A value for a text that is none. -/
  | asText
  deriving DecidableEq, Repr

namespace Literal

def isNumber : Literal → Bool
  | .number _ => true
  | _ => false

end Literal

/-! ## Faults of a clause -/

/-- What is wrong with a clause. -/
inductive Reason where
  | unterminatedText
  | invalidComparator
  | invalidNumber
  /-- An integer with more digits than any may have. -/
  | numeralTooLong
  | unexpected (c : CodePoint)
  | emptyClause
  | noConnective (found : Text)
  | noProperty (found : Text)
  | noComparator (property : Text)
  | noValue (comparator : Text)
  | needsNumber (comparator : Text)
  deriving DecidableEq, Repr

def Reason.message : Reason → Text
  | .unterminatedText => "Unterminated string".text
  | .invalidComparator => "Invalid comparator".text
  | .invalidNumber => "Invalid number".text
  | .numeralTooLong => "Integer too long".text
  | .unexpected c => "Unexpected character ".text ++ Text.shown [c]
  | .emptyClause => "Empty where clause".text
  | .noConnective found => "Expected a boolean operator, found ".text ++ Text.shown found
  | .noProperty found => "Expected a property name, found ".text ++
      Text.shown (if found.isEmpty then "end of clause".text else found)
  | .noComparator property => "Expected a comparator after ".text ++ Text.shown property
  | .noValue comparator => "Expected a value after ".text ++ Text.shown comparator
  | .needsNumber comparator =>
      "Comparator ".text ++ Text.shown comparator ++ " needs a number".text

/-- What is wrong with a clause, and where in it. -/
structure Fault where
  reason : Reason
  clause : Text
  position : Nat
  deriving DecidableEq, Repr

/-- The place is left out for an empty clause. -/
def Fault.message (f : Fault) : Text :=
  if f.clause.isEmpty then f.reason.message
  else f.reason.message ++ " in where clause ".text ++ Text.shown f.clause ++
    " (at ".text ++ decimal f.position ++ ")".text

/-! ## Tokens -/

inductive TokenContent where
  | name (t : Text)
  | comparator (c : Comparator)
  | literal (l : Literal)
  | connective (c : Connective)
  | negation
  deriving DecidableEq, Repr

/-- A token, the part of the clause it was written with, and where that begins. -/
structure Token where
  content : TokenContent
  source : Text
  position : Nat
  deriving DecidableEq, Repr

namespace Token

/-- A token as messages show it: a comparator in its own spelling, all else as
    written. -/
def text (t : Token) : Text :=
  match t.content with
  | .comparator c => c.sign
  | _ => t.source

/-- What a word stands for. -/
def ofWord (word : Text) : TokenContent :=
  let small := word.map CodePoint.toLower
  if small = "and".text then .connective .and
  else if small = "or".text then .connective .or
  else if small = "xor".text then .connective .xor
  else if small = "not".text then .negation
  else if small = "true".text then .literal (.bool true)
  else if small = "false".text then .literal (.bool false)
  else if small = "null".text then .literal .null
  else .name word

/-- The token that begins with `c`, and what follows it. -/
def read (c : CodePoint) (rest : Text) : Except Reason (TokenContent × Text) :=
  if Reader.isQuote c then
    match Reader.quotedBody? c rest with
    | some (inside, after) => .ok (.literal (.text inside), after)
    | none => .error .unterminatedText
  else if c = '=' || c = '!' || c = '<' || c = '>' then
    match Comparator.read? (c :: rest) with
    | some (comparator, after) => .ok (.comparator comparator, after)
    | none => .error .invalidComparator
  else if Reader.isDigit c || c = '+' || c = '-' || c = '.' then
    match NumberShape.read? (c :: rest) with
    | some (shape, after) =>
      match shape.value? with
      | some n => .ok (.literal (.number n), after)
      | none => .error .numeralTooLong
    | none => .error .invalidNumber
  else
    match Reader.name? (c :: rest) with
    | some (word, after) => .ok (ofWord word, after)
    | none => .error (.unexpected c)

/-- What a token that begins with `c` holds, and what follows it. -/
inductive Begins (c : CodePoint) (rest : Text) : TokenContent → Text → Prop
  | text {inside after : Text} : Reader.isQuote c = true → Reader.quotedBody? c rest = some (inside, after) →
      Begins c rest (.literal (.text inside)) after
  | comparator {comparator : Comparator} {after : Text} : ¬Reader.isQuote c = true →
      (c = '=' || c = '!' || c = '<' || c = '>') = true → Comparator.read? (c :: rest) = some (comparator, after) →
      Begins c rest (.comparator comparator) after
  | number {shape : NumberShape} {n : Number} {after : Text} : ¬Reader.isQuote c = true →
      ¬(c = '=' || c = '!' || c = '<' || c = '>') = true →
      (Reader.isDigit c || c = '+' || c = '-' || c = '.') = true →
      NumberShape.read? (c :: rest) = some (shape, after) → shape.value? = some n →
      Begins c rest (.literal (.number n)) after
  | word {word after : Text} : ¬Reader.isQuote c = true → ¬(c = '=' || c = '!' || c = '<' || c = '>') = true →
      ¬(Reader.isDigit c || c = '+' || c = '-' || c = '.') = true → Reader.name? (c :: rest) = some (word, after) →
      Begins c rest (ofWord word) after

theorem read_eq_ok_iff {c : CodePoint} {rest after : Text} {content : TokenContent} :
    read c rest = .ok (content, after) ↔ Begins c rest content after := by
  constructor
  · intro h
    unfold read at h
    split at h
    · rename_i hquote
      split at h
      · rename_i hbody
        cases h
        exact .text hquote hbody
      · cases h
    rename_i hquote
    split at h
    · rename_i hsign
      split at h
      · rename_i hcomparator
        cases h
        exact .comparator hquote hsign hcomparator
      · cases h
    rename_i hsign
    split at h
    · rename_i hdigit
      split at h
      · rename_i hnumber
        split at h
        · rename_i hvalue
          cases h
          exact .number hquote hsign hdigit hnumber hvalue
        · cases h
      · cases h
    · rename_i hdigit
      split at h
      · rename_i hword
        cases h
        exact .word hquote hsign hdigit hword
      · cases h
  · intro h
    cases h with
    | text hquote hbody => rw [read, if_pos hquote, hbody]
    | comparator hquote hsign hcomparator => rw [read, if_neg hquote, if_pos hsign, hcomparator]
    | number hquote hsign hdigit hnumber hvalue =>
      rw [read, if_neg hquote, if_neg hsign, if_pos hdigit, hnumber]
      dsimp only
      rw [hvalue]
    | word hquote hsign hdigit hword => rw [read, if_neg hquote, if_neg hsign, if_neg hdigit, hword]

end Token

/-! ## Every token takes a character -/

theorem Comparator.read?_length {t after : Text} {c : Comparator}
    (h : Comparator.read? t = some (c, after)) : after.length < t.length := by
  unfold Comparator.read? at h
  split at h
  all_goals
    simp only [Option.some.injEq, Prod.mk.injEq, reduceCtorEq] at h
  all_goals
    obtain ⟨_, rfl⟩ := h
    simp only [List.length_cons]
    omega

theorem Token.read_length {c : CodePoint} {rest after : Text} {content : TokenContent}
    (h : Token.read c rest = .ok (content, after)) : after.length < (c :: rest).length := by
  cases Token.read_eq_ok_iff.mp h with
  | text _ hbody =>
    have hlength := Reader.quotedBody?_length hbody
    rw [List.length_cons]
    omega
  | comparator _ _ hcomparator => exact Comparator.read?_length hcomparator
  | number _ _ _ hnumber _ => exact NumberShape.read?_length hnumber
  | word _ _ _ hword => exact Reader.name?_length hword

/-! ## A whole clause -/

/-- The tokens of `t`, which begins without spaces at `position` of `clause`. -/
def tokensFrom (clause : Text) (position : Nat) : Text → Except Fault (List Token)
  | [] => .ok []
  | c :: rest =>
    match _h : Token.read c rest with
    | .error reason => .error ⟨reason, clause, position⟩
    | .ok (content, after) =>
      let source := (c :: rest).take ((c :: rest).length - after.length)
      let gap := (after.takeWhile Reader.isSpace).length
      (tokensFrom clause (position + source.length + gap) (Reader.dropSpaces after)).map
        (⟨content, source, position⟩ :: ·)
termination_by t => t.length
decreasing_by
  have h₁ := Token.read_length _h
  have h₂ := Reader.length_dropWhile_le Reader.isSpace after
  simp only [Reader.dropSpaces]
  omega

/-- The tokens of a clause. -/
def tokens (clause : Text) : Except Fault (List Token) :=
  tokensFrom clause (clause.takeWhile Reader.isSpace).length (Reader.dropSpaces clause)

end Errand.Where
