/-
  Errand.Proofs.Where.Locality — how far the reader of a token looks.

  A space or a double quote continues no name, no number and no comparator, so these are read
  in front of one as they are at the end of the clause. A quoted text is read up to its own
  quote. So a token that ended in front of such a break is read in the same way whatever
  stands from there on, as long as that begins with a break again (`Token.read_cut`,
  `Token.read_append`).

  Where tokens touch without a break, the reader still took no more than it needed: what it
  took of the text is read as the same token by itself (`Token.read_alone`).
-/

import Errand.Proofs.Where.Tokens

namespace Errand

/-- A text that begins with a double quote, unless it is empty. -/
def AtQuote (u : Text) : Prop := ∀ c ∈ u.head?, c = '"'

theorem atQuote_nil : AtQuote [] := fun _ hc => by cases hc

theorem atQuote_cons (t : Text) : AtQuote (.char '"' :: t) := by
  intro c hc
  cases hc
  rfl

/-- No run goes on over a quote that is not of its class. -/
theorem AtQuote.ends {u : Text} (hu : AtQuote u) {p : CodePoint → Bool} (hquote : p (.char '"') = false) :
    ∀ c ∈ u.head?, p c = false := by
  intro c hc
  rw [hu c hc]
  exact hquote

/-- The characters that continue no token but a quoted text: the spaces and the double quote. -/
def breaks : List CodePoint := [' ', '\t', '\n', '\r', '\x0c', '\x0b', '"']

/-- A text that begins with a break, unless it is empty. -/
def AtBreak (u : Text) : Prop := ∀ c ∈ u.head?, c ∈ breaks

theorem AtQuote.atBreak {u : Text} (hu : AtQuote u) : AtBreak u := by
  intro c hc
  rw [hu c hc]
  decide

/-- What no break has, no text at a break begins with. -/
theorem AtBreak.ends {u : Text} (hu : AtBreak u) {p : CodePoint → Prop} (hp : ∀ c ∈ breaks, p c) :
    ∀ c ∈ u.head?, p c := fun c hc => hp c (hu c hc)

theorem mem_breaks_of_isSpace {c : CodePoint} (hc : Reader.isSpace c = true) : c ∈ breaks := by
  simp only [Reader.isSpace, Bool.or_eq_true, beq_iff_eq] at hc
  rcases hc with ((((rfl | rfl) | rfl) | rfl) | rfl) | rfl
  all_goals decide

variable {u : Text}

/-! ## The small readers -/

namespace Reader

theorem dropSpaces_before_quote (hu : AtQuote u) (t : Text) : dropSpaces (t ++ u) = dropSpaces t ++ u :=
  Text.dropWhile_append_of_head (hu.ends (by decide)) t

theorem name?_before_break (hu : AtBreak u) (t : Text) :
    name? (t ++ u) = (name? t).map fun (word, after) => (word, after ++ u) := by
  rcases t with _ | ⟨c, t⟩
  · rcases u with _ | ⟨d, u⟩
    · rfl
    · have hd : (isLetter d || d == '_') = false :=
        hu.ends (p := fun d => (isLetter d || d == '_') = false) (by decide) d rfl
      rw [List.nil_append, name?, hd]
      rfl
  · have hchar : ∀ d ∈ u.head?, isNameChar d = false := hu.ends (by decide)
    rw [List.cons_append, name?, name?, Text.takeWhile_append_of_head hchar, Text.dropWhile_append_of_head hchar]
    split
    · rfl
    · rfl

theorem quotedBody?_append {quote : CodePoint} {t inside after : Text} (h : quotedBody? quote t = some (inside, after))
    (u : Text) : quotedBody? quote (t ++ u) = some (inside, after ++ u) := by
  fun_induction quotedBody? quote t generalizing inside after with
  | case1 => cases h
  | case2 rest =>
    cases h
    rw [List.cons_append, quotedBody?.eq_def]
    exact if_pos rfl
  | case3 => cases h
  | case4 d more hquote ih =>
    obtain ⟨⟨inside', after'⟩, hmore, he⟩ := Option.map_eq_some_iff.mp h
    cases he
    rw [List.cons_append, List.cons_append, quotedBody?.eq_def]
    dsimp only
    rw [if_neg hquote, if_pos rfl, ih hmore, Option.map_some]
  | case5 c rest hquote hslash ih =>
    obtain ⟨⟨inside', after'⟩, hrest, he⟩ := Option.map_eq_some_iff.mp h
    cases he
    rw [List.cons_append, quotedBody?.eq_def]
    dsimp only
    rw [if_neg hquote, if_neg hslash, ih hrest, Option.map_some]

/-- A quoted text that ended is closed by what stands in front of its end. -/
theorem quotedBody?_cut {quote : CodePoint} {t u inside after : Text}
    (h : quotedBody? quote (t ++ u) = some (inside, after)) (hlength : u.length ≤ after.length) :
    ∃ after', quotedBody? quote t = some (inside, after') := by
  fun_induction quotedBody? quote t generalizing inside after with
  | case1 =>
    have := quotedBody?_length h
    rw [List.nil_append] at this
    omega
  | case2 rest =>
    rw [List.cons_append, quotedBody?.eq_def] at h
    dsimp only at h
    rw [if_pos rfl] at h
    cases h
    exact ⟨rest, rfl⟩
  | case3 hquote =>
    rw [List.cons_append, List.nil_append, quotedBody?.eq_def] at h
    dsimp only at h
    rw [if_neg hquote, if_pos rfl] at h
    rcases u with _ | ⟨d, u⟩
    · cases h
    · obtain ⟨⟨inside', after'⟩, hmore, he⟩ := Option.map_eq_some_iff.mp h
      cases he
      have hshorter := quotedBody?_length hmore
      rw [List.length_cons] at hlength
      dsimp only at hlength
      omega
  | case4 d more hquote ih =>
    rw [List.cons_append, List.cons_append, quotedBody?.eq_def] at h
    dsimp only at h
    rw [if_neg hquote, if_pos rfl] at h
    obtain ⟨⟨inside', after'⟩, hmore, he⟩ := Option.map_eq_some_iff.mp h
    cases he
    obtain ⟨rest, hrest⟩ := ih hmore hlength
    exact ⟨rest, by rw [hrest]; rfl⟩
  | case5 c rest hquote hslash ih =>
    rw [List.cons_append, quotedBody?.eq_def] at h
    dsimp only at h
    rw [if_neg hquote, if_neg hslash] at h
    obtain ⟨⟨inside', after'⟩, hrest, he⟩ := Option.map_eq_some_iff.mp h
    cases he
    obtain ⟨rest', hrest'⟩ := ih hrest hlength
    exact ⟨rest', by rw [hrest']; rfl⟩

/-! What a reader took of a text is read by itself, with nothing left. -/

theorem name?_alone {t word after : Text} (h : name? t = some (word, after)) :
    ∃ own, t = own ++ after ∧ name? own = some (word, []) :=
  ⟨word, (name?_spec h).1, name?_word h⟩

theorem quotedBody?_alone {quote : CodePoint} {t inside after : Text} (h : quotedBody? quote t = some (inside, after)) :
    ∃ own, t = own ++ after ∧ quotedBody? quote own = some (inside, []) := by
  obtain ⟨front, rfl⟩ := (List.suffix_cons quote after).trans (quotedBody?_closes h)
  refine ⟨front, rfl, ?_⟩
  obtain ⟨rest, hfront⟩ := quotedBody?_cut h (Nat.le_refl _)
  have hboth := quotedBody?_append hfront after
  rw [h, Option.some.injEq, Prod.mk.injEq] at hboth
  rw [hfront, List.self_eq_append_left.mp hboth.2]

end Reader

namespace NumberShape

theorem readSign_before_break (hu : AtBreak u) (t : Text) :
    readSign (t ++ u) = ((readSign t).1, (readSign t).2 ++ u) := by
  rcases t with _ | ⟨c, t⟩
  · exact readSign_unsigned (hu.ends (by decide))
  · rw [List.cons_append, readSign, readSign]
    split
    · rfl
    · rfl

theorem readExponent?_before_break (hu : AtBreak u) (t : Text) :
    readExponent? (t ++ u) = (readExponent? t).map fun (exponent, after) => (exponent, after ++ u) := by
  rcases t with _ | ⟨c, t⟩
  · exact readExponent?_unlettered (hu.ends (by decide))
  · have hdigit : ∀ d ∈ u.head?, Reader.isDigit d = false := hu.ends (by decide)
    simp only [List.cons_append, readExponent?, readSign_before_break hu, Text.takeWhile_append_of_head hdigit,
      Text.dropWhile_append_of_head hdigit]
    split
    · split
      · rfl
      · rfl
    · rfl

theorem read?_before_break (hu : AtBreak u) (t : Text) :
    read? (t ++ u) = (read? t).map fun (shape, after) => (shape, after ++ u) := by
  have hdigit : ∀ d ∈ u.head?, Reader.isDigit d = false := hu.ends (by decide)
  simp only [read?, readSign_before_break hu, Text.takeWhile_append_of_head hdigit,
    Text.dropWhile_append_of_head hdigit]
  generalize (readSign t).2.takeWhile Reader.isDigit = whole
  generalize (readSign t).2.dropWhile Reader.isDigit = behind
  by_cases hpoint : ∃ rest, behind = .char '.' :: rest
  · obtain ⟨rest, rfl⟩ := hpoint
    simp only [List.cons_append, Text.takeWhile_append_of_head hdigit, Text.dropWhile_append_of_head hdigit,
      readExponent?_before_break hu]
    split
    · rfl
    · rw [Option.map_map, Option.map_map]
      rfl
  · have hpoint' : ¬∃ rest, behind ++ u = .char '.' :: rest := by
      rintro ⟨rest, hrest⟩
      rcases behind with _ | ⟨c, behind⟩
      · rw [List.nil_append] at hrest
        exact absurd (hu (.char '.') (by rw [hrest]; rfl)) (by decide)
      · exact hpoint ⟨behind, by rw [(List.cons.inj hrest).1]⟩
    split
    · exact absurd ⟨_, ‹_›⟩ hpoint'
    split
    · split
      · exact absurd ⟨_, rfl⟩ hpoint
      · rfl
    · split
      · exact absurd ⟨_, rfl⟩ hpoint
      · rw [readExponent?_before_break hu, Option.map_map, Option.map_map]
        rfl

theorem readSign_eq (t : Text) : (readSign t).1 ++ (readSign t).2 = t := by
  rcases t with _ | ⟨c, t⟩
  · rfl
  · rw [readSign]
    split
    · rfl
    · rfl

/-- A sign is read in front of anything that is none. -/
theorem readSign_alone (t : Text) (hu : ∀ c ∈ u.head?, c ≠ '+' ∧ c ≠ '-') :
    readSign ((readSign t).1 ++ u) = ((readSign t).1, u) := by
  rcases t with _ | ⟨c, t⟩
  · exact readSign_unsigned hu
  · rw [readSign]
    split
    · rename_i hc
      exact if_pos hc
    · exact readSign_unsigned hu

/-- Digits are no sign. -/
theorem unsigned_of_digits {run : Text} (hrun : ∀ c ∈ run, Reader.isDigit c = true)
    (hu : ∀ c ∈ u.head?, c ≠ '+' ∧ c ≠ '-') : ∀ c ∈ (run ++ u).head?, c ≠ '+' ∧ c ≠ '-' := by
  rcases run with _ | ⟨d, run⟩
  · exact hu
  · intro c hc
    cases hc
    have hd := hrun _ List.mem_cons_self
    exact ⟨Reader.ne_of_class hd (by decide), Reader.ne_of_class hd (by decide)⟩

/-- What is taken for an exponent is none, or begins with its letter. -/
theorem readExponent?_alone {t after : Text} {e : Option (CodePoint × Text × Text)}
    (h : readExponent? t = some (e, after)) :
    ∃ own, t = own ++ after ∧ readExponent? own = some (e, []) ∧ ∀ c ∈ own.head?, c = 'e' ∨ c = 'E' := by
  rcases readExponent?_cases h with ⟨rfl, rfl⟩ | ⟨c, t, rfl, hc, hdigits, rfl, rfl⟩
  · exact ⟨[], rfl, rfl, by simp⟩
  · have hrun : ∀ d ∈ (readSign t).2.takeWhile Reader.isDigit, Reader.isDigit d = true :=
      fun d hd => List.mem_takeWhile_imp hd
    have hsign : readSign ((readSign t).1 ++ (readSign t).2.takeWhile Reader.isDigit) =
        ((readSign t).1, (readSign t).2.takeWhile Reader.isDigit) := by
      have hunsigned := unsigned_of_digits (u := []) hrun (by simp)
      rw [List.append_nil] at hunsigned
      exact readSign_alone t hunsigned
    refine ⟨c :: ((readSign t).1 ++ (readSign t).2.takeWhile Reader.isDigit), ?_, ?_, by simpa using hc⟩
    · rw [List.cons_append, List.append_assoc, List.takeWhile_append_dropWhile, readSign_eq]
    · rw [readExponent?, if_pos hc, hsign]
      dsimp only
      rw [List.takeWhile_eq_self_iff.mpr hrun, List.dropWhile_eq_nil_iff.mpr hrun,
        if_neg (mt List.isEmpty_iff.mp hdigits)]

theorem read?_alone {t after : Text} {s : NumberShape} (h : read? t = some (s, after)) :
    ∃ own, t = own ++ after ∧ read? own = some (s, []) := by
  have hwhole : ∀ c ∈ (readSign t).2.takeWhile Reader.isDigit, Reader.isDigit c = true :=
    fun c hc => List.mem_takeWhile_imp hc
  have ht : t = (readSign t).1 ++ ((readSign t).2.takeWhile Reader.isDigit ++
      (readSign t).2.dropWhile Reader.isDigit) := by
    rw [List.takeWhile_append_dropWhile, readSign_eq]
  -- nothing an exponent can begin with belongs to what stands in front of it
  have hclear : ∀ {own : Text}, (∀ c ∈ own.head?, c = 'e' ∨ c = 'E') →
      ∀ c ∈ own.head?, (Reader.isDigit c = false ∧ c ≠ '.') ∧ c ≠ '+' ∧ c ≠ '-' := by
    intro own hown c hc
    rcases hown c hc with rfl | rfl
    · decide
    · decide
  cases begins_of_read? h with
  | @pointed rest _ _ hpoint hfraction hexponent =>
    obtain ⟨own, hrest, hown, hletter⟩ := readExponent?_alone hexponent
    have hunsigned := unsigned_of_digits hwhole
      (u := .char '.' :: (rest.takeWhile Reader.isDigit ++ own)) (by intro c hc; cases hc; decide)
    have hread := read?_pointed (readSign_alone t hunsigned) hwhole hfraction
      (fun c hc => List.mem_takeWhile_imp hc) fun c hc => (hclear hletter c hc).1.1
    rw [hown] at hread
    rw [hpoint, ← List.takeWhile_append_dropWhile (p := Reader.isDigit) (l := rest), hrest] at ht
    exact ⟨_, by simpa only [List.append_assoc, List.cons_append] using ht, hread⟩
  | unpointed _ hne hexponent =>
    obtain ⟨own, hrest, hown, hletter⟩ := readExponent?_alone hexponent
    have hunsigned := unsigned_of_digits hwhole (u := own) fun c hc => (hclear hletter c hc).2
    have hread := read?_unpointed (readSign_alone t hunsigned) hne hwhole
      fun c hc => (hclear hletter c hc).1
    rw [hown] at hread
    rw [hrest] at ht
    exact ⟨_, by simpa only [List.append_assoc] using ht, hread⟩

end NumberShape

namespace Where

namespace Comparator

/-- A text in front of a break begins with nothing but what it begins with itself. -/
theorem unbegun (hu : AtBreak u) {d : CodePoint} (hd : d ∉ breaks) {t : Text} (ht : ∀ rest, t = d :: rest → False) :
    ∀ rest, t ++ u = d :: rest → False := by
  intro rest h
  rcases t with _ | ⟨c, t⟩
  · rw [List.nil_append] at h
    exact hd (hu d (by rw [h]; rfl))
  · exact ht t (by rw [(List.cons.inj h).1])

theorem read?_before_break (hu : AtBreak u) (t : Text) :
    read? (t ++ u) = (read? t).map fun (comparator, after) => (comparator, after ++ u) := by
  fun_cases read? t with
  | case1 rest => rfl
  | case2 rest h => exact read?.eq_2 _ (unbegun hu (by decide) h)
  | case3 rest => rfl
  | case4 rest => rfl
  | case5 rest h => exact read?.eq_5 _ (unbegun hu (by decide) h)
  | case6 rest => rfl
  | case7 rest => rfl
  | case8 rest h h' => exact read?.eq_8 _ (unbegun hu (by decide) h) (unbegun hu (by decide) h')
  | case9 _ _ hequal hunequal _ hgreater _ _ hless =>
    have hequal := unbegun hu (d := .char '=') (by decide) hequal
    have hgreater := unbegun hu (d := .char '>') (by decide) hgreater
    have hless := unbegun hu (d := .char '<') (by decide) hless
    -- an exclamation mark by itself is the one beginning of two characters left
    have hunequal : ∀ rest, t ++ u = .char '!' :: .char '=' :: rest → False := by
      intro rest h
      rcases t with _ | ⟨c, t⟩
      · exact unbegun hu (d := .char '!') (by decide) (fun rest h => by cases h) _ h
      · rw [List.cons_append, List.cons.injEq] at h
        refine unbegun hu (d := .char '=') (by decide) (fun rest hrest => ?_) _ h.2
        exact hunequal rest (by rw [h.1, hrest])
    exact read?.eq_9 _ (fun _ => hequal _) hequal hunequal (fun _ => hgreater _) hgreater (fun _ => hless _)
      (fun _ => hless _) hless

theorem read?_alone {t after : Text} {c : Comparator} (h : read? t = some (c, after)) :
    ∃ own, t = own ++ after ∧ read? own = some (c, []) := by
  unfold read? at h
  split at h
  all_goals cases h
  · exact ⟨"==".text, rfl, rfl⟩
  · exact ⟨"=".text, rfl, rfl⟩
  · exact ⟨"!=".text, rfl, rfl⟩
  · exact ⟨">=".text, rfl, rfl⟩
  · exact ⟨">".text, rfl, rfl⟩
  · exact ⟨"<=".text, rfl, rfl⟩
  · exact ⟨"<>".text, rfl, rfl⟩
  · exact ⟨"<".text, rfl, rfl⟩

end Comparator

namespace Token
variable {c : CodePoint} {rest after : Text} {k : TokenContent}

theorem read_quoted (hc : Reader.isQuote c = true) :
    read c rest = .ok (k, after) ↔
      ∃ inside, Reader.quotedBody? c rest = some (inside, after) ∧ k = .literal (.text inside) := by
  constructor
  · intro h
    cases read_eq_ok_iff.mp h with
    | text _ hbody => exact ⟨_, hbody, rfl⟩
    | comparator hquote | number hquote | word hquote => exact absurd hc hquote
  · rintro ⟨inside, hbody, rfl⟩
    exact read_eq_ok_iff.mpr (.text hc hbody)

/-- A break ends every token but a quoted text. -/
theorem read_unquoted (hu : AtBreak u) (hc : Reader.isQuote c = false) (rest : Text) :
    read c (rest ++ u) = (read c rest).map fun (k, after) => (k, after ++ u) := by
  have hquote : ¬Reader.isQuote c = true := by simp [hc]
  rw [read, read, if_neg hquote, if_neg hquote, ← List.cons_append, Comparator.read?_before_break hu,
    NumberShape.read?_before_break hu, Reader.name?_before_break hu]
  split
  · rcases Comparator.read? (c :: rest) with _ | ⟨comparator, after⟩
    · rfl
    · rfl
  split
  · rcases NumberShape.read? (c :: rest) with _ | ⟨shape, after⟩
    · rfl
    · dsimp only [Option.map_some]
      rcases shape.value? with _ | n
      · rfl
      · rfl
  · rcases Reader.name? (c :: rest) with _ | ⟨word, after⟩
    · rfl
    · rfl

/-- A token is read in front of a break as it is read at the end, -/
theorem read_append (hu : AtBreak u) (h : read c rest = .ok (k, after)) : read c (rest ++ u) = .ok (k, after ++ u) := by
  by_cases hc : Reader.isQuote c = true
  · obtain ⟨inside, hbody, rfl⟩ := (read_quoted hc).mp h
    exact (read_quoted hc).mpr ⟨inside, Reader.quotedBody?_append hbody u, rfl⟩
  · rw [read_unquoted hu (Bool.eq_false_iff.mpr hc), h]
    rfl

/-- and one that ended in front of a break is read without what stands there. -/
theorem read_cut (hu : AtBreak u) (h : read c (rest ++ u) = .ok (k, after)) (hlength : u.length ≤ after.length) :
    ∃ after', read c rest = .ok (k, after') ∧ after = after' ++ u := by
  by_cases hc : Reader.isQuote c = true
  · obtain ⟨inside, hbody, rfl⟩ := (read_quoted hc).mp h
    obtain ⟨after', hcut⟩ := Reader.quotedBody?_cut hbody hlength
    rw [Reader.quotedBody?_append hcut] at hbody
    cases hbody
    exact ⟨after', (read_quoted hc).mpr ⟨inside, hcut, rfl⟩, rfl⟩
  · rw [read_unquoted hu (Bool.eq_false_iff.mpr hc)] at h
    obtain ⟨⟨k', after'⟩, hread, he⟩ := exists_of_map_eq_ok h
    cases he
    exact ⟨after', hread, rfl⟩

/-- What of a text begins it, if anything of it was taken. -/
theorem own_cons {own : Text} (h : c :: rest = own ++ after) (hlength : after.length < (c :: rest).length) :
    ∃ own', own = c :: own' ∧ rest = own' ++ after := by
  rcases own with _ | ⟨d, own⟩
  · rw [h, List.nil_append] at hlength
    omega
  · obtain ⟨rfl, hrest⟩ := List.cons.inj h
    exact ⟨own, rfl, hrest⟩

/-- What was taken for a token is read as the same token by itself. -/
theorem read_alone (h : read c rest = .ok (k, after)) : ∃ own, rest = own ++ after ∧ read c own = .ok (k, []) := by
  have hlength := read_length h
  cases read_eq_ok_iff.mp h with
  | text hquote hbody =>
    obtain ⟨own, hrest, hown⟩ := Reader.quotedBody?_alone hbody
    exact ⟨own, hrest, read_eq_ok_iff.mpr (.text hquote hown)⟩
  | comparator hquote hsign hcomparator =>
    obtain ⟨own, htaken, hown⟩ := Comparator.read?_alone hcomparator
    obtain ⟨own, rfl, hrest⟩ := own_cons htaken hlength
    exact ⟨own, hrest, read_eq_ok_iff.mpr (.comparator hquote hsign hown)⟩
  | number hquote hsign hdigit hnumber hvalue =>
    obtain ⟨own, htaken, hown⟩ := NumberShape.read?_alone hnumber
    obtain ⟨own, rfl, hrest⟩ := own_cons htaken hlength
    exact ⟨own, hrest, read_eq_ok_iff.mpr (.number hquote hsign hdigit hown hvalue)⟩
  | word hquote hsign hdigit hword =>
    obtain ⟨own, htaken, hown⟩ := Reader.name?_alone hword
    obtain ⟨own, rfl, hrest⟩ := own_cons htaken hlength
    exact ⟨own, hrest, read_eq_ok_iff.mpr (.word hquote hsign hdigit hown)⟩

end Token

end Where

end Errand
