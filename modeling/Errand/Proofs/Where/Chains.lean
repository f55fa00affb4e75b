/-
  Errand.Proofs.Where.Chains — which rows of tokens are clauses.

  A clause is a chain: a term, and any number of connectives with a term behind each. The
  tokens of a chain are read as its tree, which leans to the left and has each not on its
  own condition (`Chain.tree`), and nothing else is read as a clause (`parse_eq_ok_iff`).
  All other tokens are a fault of the clause itself.

  The reader takes what it needs from the front, so each part is said with the tokens behind
  it, which may be any: `parseCondition_eq_ok_iff`, `parseTerm_eq_ok_iff`,
  `parseMore_eq_ok_iff`.
-/

import Errand.Proofs.Where.Tokens

namespace Errand.Where

/-! ## Chains -/

namespace Condition

def contents (c : Condition) : List TokenContent :=
  [.name c.property, .comparator c.comparator, .literal c.literal]

/-- A literal that is not a number stands behind = or !=. -/
def IsComparable (c : Condition) : Prop :=
  c.literal.isNumber = true ∨ c.comparator = .equal ∨ c.comparator = .unequal

end Condition

/-- A condition, and whether not stands in front of it. -/
structure Term where
  isNegated : Bool
  condition : Condition

namespace Term

def contents (t : Term) : List TokenContent :=
  if t.isNegated then .negation :: t.condition.contents else t.condition.contents

def tree (t : Term) : Expr :=
  if t.isNegated then .negation (.condition t.condition) else .condition t.condition

end Term

/-- The connectives of a chain, with the term behind each. -/
abbrev Links := List (Connective × Term)

namespace Links

def contents (links : Links) : List TokenContent :=
  links.flatMap fun (connective, term) => .connective connective :: term.contents

/-- The tree with the terms joined to it one by one. -/
def tree (links : Links) (first : Expr) : Expr :=
  links.foldl (fun tree (connective, term) => .joined connective tree term.tree) first

end Links

/-- Terms with a connective between neighbours. -/
structure Chain where
  first : Term
  links : Links

namespace Chain

def contents (c : Chain) : List TokenContent := c.first.contents ++ c.links.contents

def tree (c : Chain) : Expr := c.links.tree c.first.tree

def terms (c : Chain) : List Term := c.first :: c.links.map Prod.snd

/-- The tokens are those of the chain, and each of its literals can be compared so. -/
structure Reads (c : Chain) (found : List Token) : Prop where
  contents : found.map Token.content = c.contents
  comparable : ∀ t ∈ c.terms, t.condition.IsComparable

end Chain

/-! ## Conditions and terms -/

/-- What the reader asks of a condition. -/
def Condition.Fits (c : Condition) : Prop := c.comparator.isOrdering = true → c.literal.isNumber = true

theorem Condition.fits_iff_isComparable {c : Condition} (hc : c.comparator.IsProper) : c.Fits ↔ c.IsComparable := by
  obtain ⟨property, comparator, literal⟩ := c
  cases comparator with
  | other sign => exact absurd rfl (hc sign)
  | equal | unequal | greater | atLeast | less | atMost => simp [Fits, IsComparable, Comparator.isOrdering]

variable {clause : Text}

theorem parseCondition_eq_ok_iff {found rest : List Token} {c : Condition} :
    parseCondition clause found = .ok (c, rest) ↔
      ∃ own, found = own ++ rest ∧ own.map Token.content = c.contents ∧ c.Fits := by
  constructor
  · intro h
    unfold parseCondition at h
    dsimp only at h
    split at h
    · split at h
      · split at h
        · split at h
          · cases h
          · rename_i property source place _ comparator spelling place' _ literal source' place'' after hfits
            cases h
            refine ⟨[⟨.name property, source, place⟩, ⟨.comparator comparator, spelling, place'⟩,
              ⟨.literal literal, source', place''⟩], rfl, rfl, ?_⟩
            simpa [Condition.Fits] using hfits
        · cases h
      · cases h
    · cases h
  · rintro ⟨own, rfl, hown, hfits⟩
    obtain ⟨a, own, rfl, ha, hown⟩ := List.map_eq_cons_iff.mp hown
    obtain ⟨b, own, rfl, hb, hown⟩ := List.map_eq_cons_iff.mp hown
    obtain ⟨l, own, rfl, hl, hown⟩ := List.map_eq_cons_iff.mp hown
    rw [List.map_eq_nil_iff] at hown
    subst hown
    obtain ⟨_, _, _⟩ := a
    obtain ⟨_, _, _⟩ := b
    obtain ⟨_, _, _⟩ := l
    cases ha
    cases hb
    cases hl
    simp only [parseCondition, List.cons_append, List.nil_append]
    rw [if_neg (by simpa [Condition.Fits] using hfits)]

theorem parseTerm_eq_ok_iff {found rest : List Token} {e : Expr} : parseTerm clause found = .ok (e, rest) ↔
    ∃ (t : Term) (own : List Token), found = own ++ rest ∧ own.map Token.content = t.contents ∧ t.condition.Fits ∧
      e = t.tree := by
  constructor
  · intro h
    unfold parseTerm at h
    split at h
    · rename_i source place more
      obtain ⟨⟨c, after⟩, hc, he⟩ := exists_of_map_eq_ok h
      cases he
      obtain ⟨own, rfl, hown, hfits⟩ := parseCondition_eq_ok_iff.mp hc
      exact ⟨⟨true, c⟩, ⟨.negation, source, place⟩ :: own, rfl, by rw [List.map_cons, hown]; rfl, hfits, rfl⟩
    · obtain ⟨⟨c, after⟩, hc, he⟩ := exists_of_map_eq_ok h
      cases he
      obtain ⟨own, rfl, hown, hfits⟩ := parseCondition_eq_ok_iff.mp hc
      exact ⟨⟨false, c⟩, own, rfl, hown, hfits, rfl⟩
  · rintro ⟨⟨isNegated, c⟩, own, rfl, hown, hfits, rfl⟩
    cases isNegated with
    | true =>
      obtain ⟨a, own, rfl, ha, hcontents⟩ := List.map_eq_cons_iff.mp hown
      obtain ⟨_, source, place⟩ := a
      cases ha
      have hc : parseCondition clause (own ++ rest) = .ok (c, rest) :=
        parseCondition_eq_ok_iff.mpr ⟨own, rfl, hcontents, hfits⟩
      show (parseCondition clause (own ++ rest)).map _ = _
      rw [hc]
      rfl
    | false =>
      have hc : parseCondition clause (own ++ rest) = .ok (c, rest) :=
        parseCondition_eq_ok_iff.mpr ⟨own, rfl, hown, hfits⟩
      obtain ⟨a, own, rfl, ha, -⟩ := List.map_eq_cons_iff.mp hown
      obtain ⟨_, source, place⟩ := a
      cases ha
      show (parseCondition clause (_ :: (own ++ rest))).map _ = _
      rw [← List.cons_append, hc]
      rfl

/-! ## Whole chains -/

theorem parseMore_eq_ok_iff {found : List Token} {tree root : Expr} : parseMore clause tree found = .ok root ↔
    ∃ links : Links, found.map Token.content = links.contents ∧ (∀ p ∈ links, p.2.condition.Fits) ∧
      root = links.tree tree := by
  constructor
  · intro h
    fun_induction parseMore clause tree found with
    | case1 tree =>
      cases h
      exact ⟨[], rfl, by simp, rfl⟩
    | case2 => cases h
    | case3 tree connective source place rest term after hterm ih =>
      obtain ⟨t, own, rfl, hown, hfits, rfl⟩ := parseTerm_eq_ok_iff.mp hterm
      obtain ⟨links, hlinks, hall, rfl⟩ := ih h
      refine ⟨(connective, t) :: links, ?_, List.forall_mem_cons.mpr ⟨hfits, hall⟩, rfl⟩
      rw [List.map_cons, List.map_append, hown, hlinks]
      rfl
    | case4 => cases h
  · rintro ⟨links, hlinks, hall, rfl⟩
    induction links generalizing found tree with
    | nil =>
      rw [List.map_eq_nil_iff.mp hlinks, parseMore]
      rfl
    | cons p links ih =>
      obtain ⟨connective, t⟩ := p
      obtain ⟨hfits, hall⟩ := List.forall_mem_cons.mp hall
      obtain ⟨a, found, rfl, ha, hfound⟩ := List.map_eq_cons_iff.mp hlinks
      obtain ⟨own, rest, rfl, hown, hrest⟩ := List.map_eq_append_iff.mp hfound
      obtain ⟨_, _, _⟩ := a
      cases ha
      have hterm : parseTerm clause (own ++ rest) = .ok (t.tree, rest) :=
        parseTerm_eq_ok_iff.mpr ⟨t, own, rfl, hown, hfits, rfl⟩
      rw [parseMore]
      split
      · rename_i hfault
        rw [hterm] at hfault
        cases hfault
      · rename_i hok
        rw [hterm] at hok
        cases hok
        exact ih hrest hall

theorem Condition.contents_ne_nil (c : Condition) : c.contents ≠ [] := List.cons_ne_nil _ _

theorem Term.contents_ne_nil (t : Term) : t.contents ≠ [] := by
  obtain ⟨isNegated, c⟩ := t
  cases isNegated with
  | true => exact List.cons_ne_nil _ _
  | false => exact c.contents_ne_nil

theorem Chain.forall_terms_iff {p : Term → Prop} {c : Chain} :
    (∀ t ∈ c.terms, p t) ↔ p c.first ∧ ∀ link ∈ c.links, p link.2 := by
  rw [Chain.terms, List.forall_mem_cons, List.forall_mem_map]

theorem parseTokens_eq_ok_iff {found : List Token} {root : Expr} : parseTokens clause found = .ok root ↔
    ∃ chain : Chain, found.map Token.content = chain.contents ∧ (∀ t ∈ chain.terms, t.condition.Fits) ∧
      root = chain.tree := by
  have hsome : parseTokens clause found = .ok root ↔
      ∃ term rest, parseTerm clause found = .ok (term, rest) ∧ parseMore clause term rest = .ok root := by
    rcases found with _ | ⟨k, found⟩
    · simp [parseTokens, parseTerm, parseCondition, Except.map]
    · rw [parseTokens, if_neg (by simp)]
      rcases parseTerm clause (k :: found) with f | ⟨term, rest⟩
      · simp
      · simp
  rw [hsome]
  constructor
  · rintro ⟨term, rest, hterm, hmore⟩
    obtain ⟨t, own, rfl, hown, hfits, rfl⟩ := parseTerm_eq_ok_iff.mp hterm
    obtain ⟨links, hlinks, hall, rfl⟩ := parseMore_eq_ok_iff.mp hmore
    refine ⟨⟨t, links⟩, ?_, Chain.forall_terms_iff.mpr ⟨hfits, hall⟩, rfl⟩
    rw [List.map_append, hown, hlinks]
    rfl
  · rintro ⟨⟨t, links⟩, hcontents, hall, rfl⟩
    obtain ⟨hfits, hall⟩ := Chain.forall_terms_iff.mp hall
    obtain ⟨own, rest, rfl, hown, hrest⟩ := List.map_eq_append_iff.mp hcontents
    exact ⟨t.tree, rest, parseTerm_eq_ok_iff.mpr ⟨t, own, rfl, hown, hfits, rfl⟩,
      parseMore_eq_ok_iff.mpr ⟨links, hrest, hall, rfl⟩⟩

/-! ## Faults -/

/-- The clause is at fault by the way it is written, and not a number in it beyond all bounds. -/
def Fault.IsSyntactic (f : Fault) : Prop := f.reason ≠ .numeralTooLong

theorem parseCondition_fault {found : List Token} {f : Fault} (h : parseCondition clause found = .error f) :
    f.clause = clause ∧ f.IsSyntactic := by
  unfold parseCondition at h
  dsimp only at h
  split at h
  · split at h
    · split at h
      · split at h
        · cases h
          exact ⟨rfl, Reason.noConfusion⟩
        · cases h
      · cases h
        exact ⟨rfl, Reason.noConfusion⟩
    · cases h
      exact ⟨rfl, Reason.noConfusion⟩
  · cases h
    exact ⟨rfl, Reason.noConfusion⟩

theorem parseTerm_fault {found : List Token} {f : Fault} (h : parseTerm clause found = .error f) :
    f.clause = clause ∧ f.IsSyntactic := by
  unfold parseTerm at h
  split at h
  · exact parseCondition_fault (error_of_map_eq_error h)
  · exact parseCondition_fault (error_of_map_eq_error h)

theorem parseMore_fault {found : List Token} {tree : Expr} {f : Fault} (h : parseMore clause tree found = .error f) :
    f.clause = clause ∧ f.IsSyntactic := by
  fun_induction parseMore clause tree found with
  | case1 => cases h
  | case2 _ _ _ _ _ _ hterm =>
    cases h
    exact parseTerm_fault hterm
  | case3 _ _ _ _ _ _ _ _ ih => exact ih h
  | case4 =>
    cases h
    exact ⟨rfl, Reason.noConfusion⟩

theorem parseTokens_fault {found : List Token} {f : Fault} (h : parseTokens clause found = .error f) :
    f.clause = clause ∧ f.IsSyntactic := by
  unfold parseTokens at h
  split at h
  · cases h
    exact ⟨rfl, Reason.noConfusion⟩
  · split at h
    · rename_i hterm
      cases h
      exact parseTerm_fault hterm
    · exact parseMore_fault h

/-! ## Clauses -/

theorem Term.comparator_mem_contents (t : Term) : .comparator t.condition.comparator ∈ t.contents := by
  obtain ⟨isNegated, c⟩ := t
  cases isNegated with
  | true => simp [contents, Condition.contents]
  | false => simp [contents, Condition.contents]

theorem Chain.contents_of_term {c : Chain} {t : Term} (ht : t ∈ c.terms) : ∀ k ∈ t.contents, k ∈ c.contents := by
  intro k hk
  rw [contents, List.mem_append]
  rcases List.mem_cons.mp ht with rfl | ht
  · exact Or.inl hk
  · obtain ⟨link, hlink, rfl⟩ := List.mem_map.mp ht
    exact Or.inr (List.mem_flatMap.mpr ⟨link, hlink, List.mem_cons_of_mem _ hk⟩)

theorem Term.contents_ends (t : Term) : ∃ front, t.contents = front ++ [.literal t.condition.literal] := by
  obtain ⟨isNegated, c⟩ := t
  cases isNegated with
  | true => exact ⟨[.negation, .name c.property, .comparator c.comparator], rfl⟩
  | false => exact ⟨[.name c.property, .comparator c.comparator], rfl⟩

/-- A chain ends in a literal. -/
theorem Chain.contents_ends (c : Chain) : ∃ front l, c.contents = front ++ [.literal l] := by
  obtain ⟨first, links⟩ := c
  rcases links.eq_nil_or_concat with rfl | ⟨links, ⟨connective, t⟩, rfl⟩
  · obtain ⟨front, hfront⟩ := first.contents_ends
    exact ⟨front, first.condition.literal, by simp [contents, Links.contents, hfront]⟩
  · obtain ⟨front, hfront⟩ := t.contents_ends
    refine ⟨first.contents ++ Links.contents links ++ .connective connective :: front, t.condition.literal, ?_⟩
    simp [contents, Links.contents, List.flatMap_append, hfront]

/-- Of tokens that were read, those of a chain are the ones whose conditions the reader takes. -/
theorem reads_iff {found : List Token} (h : tokens clause = .ok found) {c : Chain} : c.Reads found ↔
    found.map Token.content = c.contents ∧ ∀ t ∈ c.terms, t.condition.Fits := by
  have hfits : found.map Token.content = c.contents →
      ∀ t ∈ c.terms, (t.condition.Fits ↔ t.condition.IsComparable) := by
    intro hcontents t ht
    have hmem := c.contents_of_term ht _ t.comparator_mem_contents
    rw [← hcontents] at hmem
    obtain ⟨k, hk, hcontent⟩ := List.mem_map.mp hmem
    have hproper := tokens_proper h k hk
    rw [hcontent] at hproper
    exact Condition.fits_iff_isComparable hproper
  constructor
  · rintro ⟨hcontents, hall⟩
    exact ⟨hcontents, fun t ht => (hfits hcontents t ht).mpr (hall t ht)⟩
  · rintro ⟨hcontents, hall⟩
    exact ⟨hcontents, fun t ht => (hfits hcontents t ht).mp (hall t ht)⟩

theorem parse_eq_ok_iff {found : List Token} (h : tokens clause = .ok found) {c : Clause} :
    parse clause = .ok c ↔ ∃ chain : Chain, chain.Reads found ∧ c = ⟨clause, chain.tree⟩ := by
  have hroot : parse clause = .ok c ↔ ∃ root, parseTokens clause found = .ok root ∧ c = ⟨clause, root⟩ := by
    rw [parse, h]
    constructor
    · intro hc
      obtain ⟨root, hroot, rfl⟩ := exists_of_map_eq_ok hc
      exact ⟨root, hroot, rfl⟩
    · rintro ⟨root, hroot, rfl⟩
      show (parseTokens clause found).map _ = _
      rw [hroot]
      rfl
  rw [hroot]
  constructor
  · rintro ⟨root, hparse, rfl⟩
    obtain ⟨chain, hcontents, hall, rfl⟩ := parseTokens_eq_ok_iff.mp hparse
    exact ⟨chain, (reads_iff h).mpr ⟨hcontents, hall⟩, rfl⟩
  · rintro ⟨chain, hreads, rfl⟩
    obtain ⟨hcontents, hall⟩ := (reads_iff h).mp hreads
    exact ⟨chain.tree, parseTokens_eq_ok_iff.mpr ⟨chain, hcontents, hall, rfl⟩, rfl⟩

/-- What was read as a clause is a chain of tokens. -/
theorem chain_of_parse {c : Clause} (h : parse clause = .ok c) :
    ∃ found chain, tokens clause = .ok found ∧ Chain.Reads chain found ∧ c = ⟨clause, chain.tree⟩ := by
  rcases hfound : tokens clause with f | found
  · rw [parse, hfound] at h
    cases h
  · obtain ⟨chain, hreads, hc⟩ := (parse_eq_ok_iff hfound).mp h
    exact ⟨found, chain, rfl, hreads, hc⟩

theorem parse_fault {found : List Token} (h : tokens clause = .ok found) {f : Fault} (hf : parse clause = .error f) :
    f.clause = clause ∧ f.IsSyntactic := by
  rw [parse, h] at hf
  exact parseTokens_fault (error_of_map_eq_error hf)

/-- Tokens are read as a clause if and only if they are those of a chain, and then as its tree; all
    others are a fault of the clause. -/
theorem parse_reads_chains {found : List Token} (h : tokens clause = .ok found) :
    (∀ c, parse clause = .ok c ↔ ∃ chain : Chain, chain.Reads found ∧ c = ⟨clause, chain.tree⟩) ∧
      ((¬∃ chain : Chain, chain.Reads found) → ∃ f, parse clause = .error f ∧ f.clause = clause ∧ f.IsSyntactic) := by
  refine ⟨fun c => parse_eq_ok_iff h, ?_⟩
  intro hnone
  rcases hparse : parse clause with f | c
  · exact ⟨f, rfl, parse_fault h hparse⟩
  · obtain ⟨chain, hreads, -⟩ := (parse_eq_ok_iff h).mp hparse
    exact absurd ⟨chain, hreads⟩ hnone

/-- Behind or and xor, which bind alike, and not. -/
def mixed : Text := "not a = 'x' or b >= 2 xor c <> null".text

def mixedChain : Chain where
  first := ⟨true, ⟨"a".text, .equal, .text "x".text⟩⟩
  links := [(.or, ⟨false, ⟨"b".text, .atLeast, .number (.integer 2)⟩⟩), (.xor, ⟨false, ⟨"c".text, .unequal, .null⟩⟩)]

theorem parse_reads_chains_mixed : ∃ found, tokens mixed = .ok found ∧
    (mixedChain.Reads found ∧ parse mixed = .ok ⟨mixed, .joined .xor
      (.joined .or (.negation (.condition ⟨"a".text, .equal, .text "x".text⟩))
        (.condition ⟨"b".text, .atLeast, .number (.integer 2)⟩))
      (.condition ⟨"c".text, .unequal, .null⟩)⟩) := by
  have hcontents : (tokens mixed).toOption.map (·.map Token.content) = some mixedChain.contents := by decide +kernel
  rcases hfound : tokens mixed with f | found
  · rw [hfound] at hcontents
    cases hcontents
  · rw [hfound] at hcontents
    have hreads : mixedChain.Reads found := by
      refine ⟨Option.some.inj hcontents, ?_⟩
      simp [mixedChain, Chain.terms, Condition.IsComparable, Literal.isNumber]
    exact ⟨found, rfl, hreads, ((parse_reads_chains hfound).1 _).mpr ⟨mixedChain, hreads, rfl⟩⟩

end Errand.Where
