/-
  Errand.Proofs.Where.Testing — the faults of clauses that can be read.

  A clause can be at fault in two ways that have nothing to do with how it is put together:
  an integer in it has too many digits to be read, or a test of it needs a number or a text
  for something that has none. In a clause of short numerals nothing is too long to be read
  and each integer has a floating point number near it (`parse_short`). A test that comes to a
  fault does so at one of its conditions (`Clause.holds_error`), and there either the property
  or the literal is at fault (`Condition.holds_error`).
-/

import Errand.Proofs.Entity.Legible
import Errand.Proofs.Text.Numerals
import Errand.Proofs.Where.Chains
import Errand.Proofs.Wildcard.Clauses
import Errand.Where.Meaning

namespace Errand

open Text (ShortNumerals)

/-! ## Numbers -/

namespace NumberShape

theorem whole_of_read? {t after : Text} {s : NumberShape} (h : read? t = some (s, after)) :
    s.whole = (readSign t).2.takeWhile Reader.isDigit := by
  cases begins_of_read? h with
  | pointed => rfl
  | unpointed => rfl

/-- A number is short where no numeral is long. -/
theorem whole_length {t after : Text} {s : NumberShape} (hshort : ShortNumerals false t)
    (h : read? t = some (s, after)) : s.whole.length ≤ Double.safeDigits := by
  rw [whole_of_read? h]
  have hsign : ShortNumerals false (readSign t).2 := by
    unfold readSign
    split
    · split
      · rename_i hc
        have htail := hshort.tail
        simp only [Bool.or_eq_true, decide_eq_true_eq] at hc
        rcases hc with rfl | rfl
        · exact htail
        · exact htail
      · exact hshort
    · exact hshort
  cases hrest : (readSign t).2 with
  | nil => exact Nat.zero_le _
  | cons c rest =>
    rw [hrest] at hsign
    exact hsign.1 rfl

/-- Behind an exponent, or the place where none is, the digits are over. -/
theorem head_of_readExponent? {t after : Text} {e : Option (CodePoint × Text × Text)}
    (ht : ∀ c ∈ t.head?, Reader.isDigit c = false) (h : readExponent? t = some (e, after)) :
    ∀ c ∈ after.head?, Reader.isDigit c = false := by
  rcases readExponent?_cases h with ⟨-, rfl⟩ | ⟨c, rest, -, -, -, -, rfl⟩
  · exact ht
  · exact Text.head_dropWhile _ _

theorem head_of_read? {t after : Text} {s : NumberShape} (h : read? t = some (s, after)) :
    ∀ c ∈ after.head?, Reader.isDigit c = false := by
  cases begins_of_read? h with
  | pointed _ _ hexponent => exact head_of_readExponent? (Text.head_dropWhile _ _) hexponent
  | unpointed _ _ hexponent => exact head_of_readExponent? (Text.head_dropWhile _ _) hexponent

theorem value?_eq_none {s : NumberShape} (h : s.value? = none) : Numeral.maxDigits < s.whole.length := by
  unfold value? at h
  dsimp only at h
  split at h
  · split at h
    · assumption
    · cases h
  · cases h

theorem value?_integer {s : NumberShape} {n : Int} (h : s.value? = some (.integer n)) :
    n.natAbs < 10 ^ s.whole.length := by
  unfold value? at h
  dsimp only at h
  split at h
  · split at h
    · cases h
    · cases h
      rw [natAbs_signed]
      exact value_lt s.whole
  · cases h

end NumberShape

namespace Where

/-! ## Clauses of short numerals -/

/-- An integer that a token holds has a floating point number near it. -/
def TokenContent.IsSafe (k : TokenContent) : Prop :=
  ∀ n, k = .literal (.number (.integer n)) → n.natAbs < 10 ^ Double.safeDigits

theorem Token.not_number_of_word (word : Text) (n : Number) : ofWord word ≠ .literal (.number n) := by
  unfold ofWord
  dsimp only
  repeat' split
  all_goals exact fun h => by cases h

/-- Behind a comparator a numeral can begin. -/
theorem Comparator.short_of_read? {inWord : Bool} {t after : Text} {c : Comparator} (hshort : ShortNumerals inWord t)
    (h : read? t = some (c, after)) : ShortNumerals false after := by
  unfold read? at h
  split at h
  case h_9 => cases h
  case h_2 | h_5 | h_8 =>
    cases h
    exact hshort.tail
  all_goals
    cases h
    exact hshort.tail.tail

/-- No numeral of such a text is too long to be read. -/
theorem Token.read_not_long {c : CodePoint} {rest : Text} (hshort : ShortNumerals false (c :: rest)) :
    Token.read c rest ≠ .error .numeralTooLong := by
  intro h
  unfold Token.read at h
  split at h
  · split at h
    · cases h
    · cases h
  split at h
  · split at h
    · cases h
    · cases h
  split at h
  · split at h
    · rename_i hnumber
      split at h
      · cases h
      · rename_i hvalue
        have hlength := NumberShape.whole_length hshort hnumber
        have hlong := NumberShape.value?_eq_none hvalue
        rw [Numeral.maxDigits] at hlong
        rw [Double.safeDigits] at hlength
        omega
    · cases h
  · split at h
    · cases h
    · cases h

/-- An integer out of it is safe, and what is behind a token is another such text. -/
theorem Token.read_short {c : CodePoint} {rest after : Text} {content : TokenContent}
    (hshort : ShortNumerals false (c :: rest)) (h : Token.read c rest = .ok (content, after)) :
    content.IsSafe ∧ ShortNumerals false after := by
  cases Token.read_eq_ok_iff.mp h with
  | text hquote hbody =>
    have hbehind := (hshort.tail.suffix (Reader.quotedBody?_closes hbody)).tail
    refine ⟨fun n hn => (by cases hn), ?_⟩
    simp only [Reader.isQuote, Bool.or_eq_true, beq_iff_eq] at hquote
    rcases hquote with rfl | rfl
    · exact hbehind
    · exact hbehind
  | comparator _ _ hcomparator =>
    exact ⟨fun n hn => (by cases hn), Comparator.short_of_read? hshort hcomparator⟩
  | number _ _ _ hnumber hvalue =>
    constructor
    · intro k hk
      cases hk
      have hlength := NumberShape.whole_length hshort hnumber
      exact Nat.lt_of_lt_of_le (NumberShape.value?_integer hvalue) (Nat.pow_le_pow_right (by decide) hlength)
    · obtain ⟨source, hsource, -⟩ := overSigns_number hnumber
      exact (hshort.suffix ⟨source, hsource.symm⟩).of_head (NumberShape.head_of_read? hnumber) false
  | word _ _ _ hname =>
    obtain ⟨hsource, -, -, hhead⟩ := Reader.name?_spec hname
    refine ⟨fun n hn => absurd hn (not_number_of_word _ _), ?_⟩
    exact (hshort.suffix ⟨_, hsource.symm⟩).of_head (fun d hd => Text.not_digit_of_not_nameChar (hhead d hd)) false

theorem tokensFrom_short (clause : Text) (position : Nat) {t : Text} (hshort : ShortNumerals false t) :
    (∀ f, tokensFrom clause position t = .error f → f.IsSyntactic) ∧
      ∀ found, tokensFrom clause position t = .ok found → ∀ k ∈ found, k.content.IsSafe := by
  induction hn : t.length using Nat.strong_induction_on generalizing t position with
  | _ n ih =>
    rcases t with _ | ⟨c, rest⟩
    · rw [tokensFrom]
      refine ⟨fun f h => (by cases h), fun found h => ?_⟩
      cases h
      intro k hk
      cases hk
    · rw [tokensFrom]
      split
      · rename_i reason hreason
        refine ⟨fun f h => ?_, fun found h => (by cases h)⟩
        cases h
        rintro rfl
        exact Token.read_not_long hshort hreason
      · rename_i content after hcontent
        obtain ⟨hsafe, hafter⟩ := Token.read_short hshort hcontent
        have hshorter : (Reader.dropSpaces after).length < n := hn ▸ Token.behind_length hcontent
        have hrest := fun position => ih _ hshorter position hafter.dropSpaces rfl
        refine ⟨fun f h => (hrest _).1 f (error_of_map_eq_error h), fun found h => ?_⟩
        obtain ⟨tokens', htokens, rfl⟩ := exists_of_map_eq_ok h
        exact List.forall_mem_cons.mpr ⟨hsafe, (hrest _).2 _ htokens⟩

/-! ## The conditions of a clause -/

/-- The connectives of a tree can stand in a clause, and something is true of each of its
    conditions. -/
def Expr.Consists (p : Condition → Prop) : Expr → Prop
  | .condition c => p c
  | .negation e => e.Consists p
  | .joined connective a b => connective.IsProper ∧ a.Consists p ∧ b.Consists p

variable {p : Condition → Prop}

theorem Term.tree_consists {t : Term} (h : p t.condition) : t.tree.Consists p := by
  obtain ⟨isNegated, c⟩ := t
  cases isNegated with
  | true => exact h
  | false => exact h

theorem Links.tree_consists {links : Links} {first : Expr} (hfirst : first.Consists p)
    (h : ∀ link ∈ links, link.1.IsProper ∧ p link.2.condition) : (links.tree first).Consists p := by
  induction links generalizing first with
  | nil => exact hfirst
  | cons link links ih =>
    obtain ⟨⟨hconnective, hterm⟩, hlinks⟩ := List.forall_mem_cons.mp h
    exact ih ⟨hconnective, hfirst, Term.tree_consists hterm⟩ hlinks

theorem Term.literal_mem_contents (t : Term) : .literal t.condition.literal ∈ t.contents := by
  obtain ⟨front, hfront⟩ := t.contents_ends
  rw [hfront]
  exact List.mem_append_right _ (List.mem_singleton.mpr rfl)

/-- What is true of all that the tokens hold is true of what the conditions hold. -/
theorem Chain.tree_consists {c : Chain} {found : List Token} (hreads : c.Reads found) {q : TokenContent → Prop}
    (hproper : ∀ k ∈ found, k.content.IsProper) (h : ∀ k ∈ found, q k.content) :
    c.tree.Consists fun condition => condition.literal.IsProper ∧ q (.literal condition.literal) := by
  have hcontents : ∀ k ∈ c.contents, k.IsProper ∧ q k := by
    rw [← hreads.contents]
    exact List.forall_mem_map.mpr fun k hk => ⟨hproper k hk, h k hk⟩
  have hterm (t : Term) (ht : t ∈ c.terms) := hcontents _ (Chain.contents_of_term ht _ t.literal_mem_contents)
  refine Links.tree_consists (Term.tree_consists (hterm _ List.mem_cons_self)) fun link hlink => ⟨?_, ?_⟩
  · refine (hcontents (.connective link.1) (List.mem_append_right _ ?_)).1
    exact List.mem_flatMap.mpr ⟨link, hlink, List.mem_cons_self⟩
  · exact hterm _ (List.mem_cons_of_mem _ (List.mem_map_of_mem hlink))

/-- The conditions of a clause that was read hold literals that can be written. -/
theorem parse_consists {t : Text} {c : Clause} (h : parse t = .ok c) :
    c.root.Consists fun condition => condition.literal.IsProper := by
  obtain ⟨found, chain, hfound, hreads, rfl⟩ := chain_of_parse h
  have hall := Chain.tree_consists hreads (tokens_proper hfound) (q := fun _ => True) fun _ _ => trivial
  simpa only [and_true] using hall

/-- A clause of short numerals is at fault only by the way it is put together, and the integers in it
    have floating point numbers near them. -/
theorem parse_short {t : Text} (hshort : ShortNumerals false t) :
    (∀ f, parse t = .error f → f.IsSyntactic) ∧ ∀ c, parse t = .ok c →
      c.root.Consists fun condition => condition.literal.IsProper ∧ TokenContent.IsSafe (.literal condition.literal) := by
  have htokens := tokensFrom_short t (t.takeWhile Reader.isSpace).length hshort.dropSpaces
  constructor
  · intro f h
    rcases hfound : tokens t with f' | found
    · rw [parse, hfound] at h
      cases h
      exact htokens.1 f hfound
    · exact (parse_fault hfound h).2
  · intro c h
    obtain ⟨found, chain, hfound, hreads, rfl⟩ := chain_of_parse h
    exact Chain.tree_consists hreads (tokens_proper hfound) (htokens.2 found hfound)

/-! ## Tests -/

theorem floating_of_some {n : Int} (h : (Double.ofInt? n).isSome = true) : ∃ x, floating n = .ok x := by
  obtain ⟨x, hx⟩ := Option.isSome_iff_exists.mp h
  refine ⟨x, ?_⟩
  rw [floating, hx]
  rfl

theorem floating_error {n : Int} {f : TestFault} (h : floating n = .error f) : f = .numberTooLarge := by
  unfold floating at h
  generalize Double.ofInt? n = x? at h
  cases x? with
  | none =>
    cases h
    rfl
  | some x => cases h

theorem floating_ok {n : Int} (h : n.natAbs < 10 ^ Double.safeDigits) : ∃ x, floating n = .ok x :=
  floating_of_some (Double.ofInt?_isSome h)

/-- A number is needed for a property or a literal that has none, or a text for a property. -/
theorem Condition.holds_error {c : Condition} (hc : c.literal.IsProper) {found : Property} {f : TestFault}
    (h : c.holds found = .error f) : found.asText = .error f ∨ found.asNumber = .error f ∨
      ∃ n, c.literal = .number n ∧ literalNumber n = .error f := by
  unfold Condition.holds at h
  split at h
  · cases h
  · split at h
    · cases h
    · exact Or.inl (error_of_map_eq_error h)
  · split at h
    · cases h
    · split at h
      · cases h
      · cases h
  · rename_i n hn
    split at h
    · cases h
    rcases of_bind_eq_error h with h | ⟨x, -, h⟩
    · exact Or.inr (Or.inl h)
    · split at h
      · cases h
      · rcases of_bind_eq_error h with h | ⟨y, -, h⟩
        · exact Or.inr (Or.inr ⟨n, hn, h⟩)
        · cases h
  -- no clause is written with a literal of the other kinds
  · rename_i hl
    rw [hl] at hc
    exact hc.elim
  · rename_i hl
    rw [hl] at hc
    exact hc.elim
  · rename_i hl
    rw [hl] at hc
    exact hc.elim

theorem Expr.holds_error {find : Lookup} {e : Expr} (he : e.Consists p) {f : TestFault}
    (h : e.holds (some find) = .error f) : ∃ c, p c ∧ c.holds (find c.property) = .error f := by
  induction e with
  | condition c => exact ⟨c, he, h⟩
  | negation e ih => exact ih he (error_of_map_eq_error h)
  | joined connective a b iha ihb =>
    obtain ⟨hconnective, ha, hb⟩ := he
    cases connective with
    | and | or =>
      rcases of_bind_eq_error h with h | ⟨x, -, h⟩
      · exact iha ha h
      · cases x with
        | true => first | exact ihb hb h | cases h
        | false => first | exact ihb hb h | cases h
    | xor =>
      rcases of_bind_eq_error h with h | ⟨x, -, h⟩
      · exact iha ha h
      rcases of_bind_eq_error h with h | ⟨y, -, h⟩
      · exact ihb hb h
      · cases h
    | other word => exact absurd rfl (hconnective word)

theorem foldl_and_consists {more : List Clause} {first : Expr} (hfirst : first.Consists p)
    (h : ∀ c ∈ more, c.root.Consists p) :
    (more.foldl (fun tree clause => .joined .and tree clause.root) first).Consists p := by
  induction more generalizing first with
  | nil => exact hfirst
  | cons c more ih =>
    obtain ⟨hc, hmore⟩ := List.forall_mem_cons.mp h
    exact ih ⟨(fun word e => by cases e), hfirst, hc⟩ hmore

theorem conjunction_consists {cs : List Clause} {c : Clause} (h : ∀ c ∈ cs, c.root.Consists p)
    (hc : conjunction cs = some c) : c.root.Consists p := by
  cases cs with
  | nil => cases hc
  | cons first more =>
    cases hc
    obtain ⟨hfirst, hmore⟩ := List.forall_mem_cons.mp h
    exact foldl_and_consists hfirst hmore

end Where

/-! ## Properties -/

theorem Property.asText_error {p : Property} {f : Where.TestFault} (h : p.asText = .error f) : f = .numeralTooLong := by
  unfold asText at h
  split at h
  case h_3 =>
    split at h
    · cases h
    · cases h
      rfl
  all_goals cases h

theorem Property.asNumber_error {p : Property} {f : Where.TestFault} (h : p.asNumber = .error f) : f = .numberTooLarge := by
  unfold asNumber at h
  split at h
  case h_1 | h_2 | h_5 => exact Where.floating_error (error_of_map_eq_error h)
  all_goals cases h

/-- A property that can be brought to a text, and to a number if it is one. -/
def Property.IsMeasurable (p : Property) : Prop := (∃ t, p.asText = .ok t) ∧ ∃ x, p.asNumber = .ok x

/-- A value that can be written and is no integer beyond all floating point numbers. -/
def Value.IsMeasurable (v : Value) : Prop := v.Legible ∧ ∀ n, v = .int n → (Double.ofInt? n).isSome = true

theorem Value.Legible.asText {v : Value} (hv : v.Legible) : ∃ t, (Property.value v).asText = .ok t := by
  obtain ⟨t, ht⟩ := Option.isSome_iff_exists.mp hv.display?_isSome
  unfold Property.asText
  split
  case h_3 hvalue =>
    cases hvalue
    rw [ht]
    exact ⟨t, rfl⟩
  all_goals exact ⟨_, rfl⟩

theorem Property.isMeasurable_value {v : Value} (hv : v.IsMeasurable) : (Property.value v).IsMeasurable := by
  refine ⟨hv.1.asText, ?_⟩
  unfold asNumber
  split
  case h_1 b hb =>
    have hsmall : (if b then 1 else 0 : Int).natAbs < 10 ^ Double.safeDigits := by
      cases b with
      | true => decide +kernel
      | false => decide +kernel
    obtain ⟨x, hx⟩ := Where.floating_ok hsmall
    exact ⟨some x, by rw [hx]; rfl⟩
  case h_2 n hn =>
    cases hn
    obtain ⟨x, hx⟩ := Where.floating_of_some (hv.2 n rfl)
    exact ⟨some x, by rw [hx]; rfl⟩
  case h_5 ht => cases ht
  all_goals exact ⟨_, rfl⟩

theorem Property.isMeasurable_tier (t : Tier) : (Property.tier t).IsMeasurable := by
  refine ⟨⟨_, rfl⟩, ?_⟩
  have hsmall : t.number.natAbs < 10 ^ Double.safeDigits := by
    have hle : t.number.natAbs ≤ 5 := by
      cases t <;> decide
    exact Nat.lt_of_le_of_lt hle (by decide +kernel)
  obtain ⟨x, hx⟩ := Where.floating_ok hsmall
  exact ⟨some x, by rw [asNumber, hx]; rfl⟩

end Errand
