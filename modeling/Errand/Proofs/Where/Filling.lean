/-
  Errand.Proofs.Where.Filling — clauses with literals in the place of references.

  A clause that refers to something is read with an empty literal for each reference
  (`emptied`). Where a token begins at each of them (`holes`), they cut the clause into parts
  that are read apart (`tokensFrom_split`): no token goes on over the quote that begins a
  literal, and the one that stands there is read up to its own end (`tokensFrom_hole`). So
  with other literals in these places the tokens are the same, but for what the literals hold
  (`tokensFrom_filled`).

  The other way about, where the tokens are the same but for what the literals hold, there is
  nothing but a literal in such a place (`quote_of_tokensFrom`).
-/

import Errand.Proofs.Where.Locality
import Errand.Proofs.Wildcard.Replacing

namespace Errand.Where

/-! ## Holes -/

/-- The parts of a clause around its references, with something in the place of each. -/
def filled (new : Text → Text) (first : Text) (more : List (Text × Text)) : Text :=
  first ++ more.flatMap fun (keycode, after) => new keycode ++ after

/-- A clause with an empty literal for each reference. -/
def emptied (clause : Text) : Text := replaceReferences (fun _ => quote []) clause

def holesFrom (place : Nat) : Text → List (Text × Text) → List (Nat × Text)
  | _, [] => []
  | first, (keycode, after) :: more =>
    (place + first.length, keycode) :: holesFrom (place + first.length + (quote []).length) after more

/-- The places of the empty literals in an emptied clause, and what stood there. -/
def holes (clause : Text) : List (Nat × Text) := holesFrom 0 (cutReferences clause).1 (cutReferences clause).2

/-- What a token of an emptied clause holds with the literals filled in. -/
def Token.filled (value : Text → Text) (holes : List (Nat × Text)) (k : Token) : TokenContent :=
  match holes.lookup k.position with
  | some keycode => .literal (.text (value keycode))
  | none => k.content

section
variable {new : Text → Text} {first after keycode : Text} {more : List (Text × Text)}

theorem replaceReferences_eq_filled (clause : Text) :
    replaceReferences new clause = filled new (cutReferences clause).1 (cutReferences clause).2 := rfl

theorem filled_cons :
    filled new first ((keycode, after) :: more) = first ++ (new keycode ++ filled new after more) := by
  simp [filled]

/-- Only the place behind the first part matters. -/
theorem holesFrom_congr {place place' : Nat} {first' : Text} (h : place + first.length = place' + first'.length) :
    holesFrom place first more = holesFrom place' first' more := by
  rcases more with _ | ⟨⟨keycode, after⟩, more⟩
  · rfl
  · rw [holesFrom, holesFrom, h]

theorem le_of_holesFrom {place : Nat} : ∀ hole ∈ holesFrom place first more, place + first.length ≤ hole.1 := by
  induction more generalizing place first with
  | nil =>
    intro hole hh
    cases hh
  | cons cut more ih =>
    obtain ⟨keycode, after⟩ := cut
    rw [holesFrom, List.forall_mem_cons]
    refine ⟨Nat.le_refl _, fun hole hh => ?_⟩
    have := ih hole hh
    omega

end

theorem atQuote_quote (t u : Text) : AtQuote (quote t ++ u) := atQuote_cons _

/-! ## Parts of a clause -/

section
variable {clause : Text} {place : Nat} {found : List Token}

theorem tokensFrom_nil : tokensFrom clause place [] = .ok [] := tokensFrom.eq_1 _ _

theorem place_le_of_tokensFrom {t : Text} (h : tokensFrom clause place t = .ok found) :
    ∀ k ∈ found, place ≤ k.position := by
  induction hn : t.length using Nat.strong_induction_on generalizing t place found with
  | _ n ih =>
    rcases t with _ | ⟨c, rest⟩
    · rw [tokensFrom_nil] at h
      cases h
      intro k hk
      cases hk
    · obtain ⟨content, after, source, found', hread, hrest, rfl⟩ := tokensFrom_cons h
      refine List.forall_mem_cons.mpr ⟨Nat.le_refl _, fun k hk => ?_⟩
      have := ih _ (hn ▸ Token.behind_length hread) hrest rfl k hk
      omega

/-- In front of a quote, or at the end, a text is read as tokens that hold these contents, whatever
    follows. -/
def ReadsApart (first : Text) (contents : List TokenContent) : Prop :=
  ∀ clause place u, AtQuote u → ∃ own : List Token, own.map Token.content = contents ∧
    tokensFrom clause place (first ++ u) = (tokensFrom clause (place + first.length) u).map (own ++ ·)

theorem readsApart_nil : ReadsApart [] [] := by
  intro clause place u _
  refine ⟨[], rfl, ?_⟩
  show tokensFrom clause place u = (tokensFrom clause place u).map id
  rcases tokensFrom clause place u with f | found
  · rfl
  · rfl

/-- How far the first token and the spaces behind it go. -/
theorem place_behind {c : CodePoint} {first after : Text} {content : TokenContent}
    (h : Token.read c first = .ok (content, after)) (place : Nat) (u : Text) :
    place + ((c :: (first ++ u)).length - (Reader.dropSpaces after ++ u).length) + (Reader.dropSpaces after).length =
      place + (c :: first).length := by
  have hshorter := Token.behind_length h
  simp only [List.length_cons, List.length_append] at hshorter ⊢
  omega

theorem ReadsApart.cons {c : CodePoint} {first after : Text} {content : TokenContent} {contents : List TokenContent}
    (hread : Token.read c first = .ok (content, after)) (h : ReadsApart (Reader.dropSpaces after) contents) :
    ReadsApart (c :: first) (content :: contents) := by
  intro clause place u hu
  obtain ⟨source, hstep⟩ := tokensFrom_read clause place (Token.read_append hu.atBreak hread)
  obtain ⟨own, hcontents, htokens⟩ := h clause _ u hu
  refine ⟨⟨content, source, place⟩ :: own, by rw [List.map_cons, hcontents], ?_⟩
  rw [List.cons_append, hstep, Reader.dropSpaces_before_quote hu, htokens, place_behind hread]
  rcases tokensFrom clause (place + (c :: first).length) u with f | found
  · rfl
  · rfl

/-- A quote where a token begins, or the end, cuts a clause in two that are read apart. -/
theorem tokensFrom_split {first u : Text} (hu : AtQuote u) (h : tokensFrom clause place (first ++ u) = .ok found)
    (hend : u = [] ∨ ∃ k ∈ found, k.position = place + first.length) :
    ∃ own rest, found = own ++ rest ∧ (∀ k ∈ own, k.position < place + first.length) ∧
      tokensFrom clause (place + first.length) u = .ok rest ∧ ReadsApart first (own.map Token.content) := by
  induction hn : first.length using Nat.strong_induction_on generalizing first place found with
  | _ n ih =>
    subst hn
    rcases first with _ | ⟨c, first⟩
    · exact ⟨[], found, rfl, fun k hk => (by cases hk), h, readsApart_nil⟩
    · rw [List.cons_append] at h
      obtain ⟨content, after, source, found', hread, hrest, rfl⟩ := tokensFrom_cons h
      -- the next token begins at the quote or in front of it
      have hbehind : u.length ≤ (Reader.dropSpaces after).length := by
        rcases hend with rfl | ⟨k, hk, hplace⟩
        · exact Nat.zero_le _
        · rw [List.length_cons] at hplace
          rcases List.mem_cons.mp hk with rfl | hk
          · dsimp only at hplace
            omega
          · have hnext := place_le_of_tokensFrom hrest k hk
            rw [hplace, List.length_cons, List.length_append] at hnext
            omega
      obtain ⟨after, hown, rfl⟩ := Token.read_cut hu.atBreak hread (hbehind.trans (Reader.length_dropWhile_le _ _))
      rw [Reader.dropSpaces_before_quote hu] at hrest
      have hend : u = [] ∨ ∃ k ∈ found', k.position = place + (c :: first).length := by
        refine hend.imp_right fun ⟨k, hk, hplace⟩ => ⟨k, ?_, hplace⟩
        rcases List.mem_cons.mp hk with rfl | hk
        · rw [List.length_cons] at hplace
          dsimp only at hplace
          omega
        · exact hk
      rw [← place_behind hown place u] at hend
      obtain ⟨own, rest, rfl, hbefore, hquote, hapart⟩ :=
        ih _ (Token.behind_length hown) hrest hend rfl
      rw [place_behind hown place u] at hbefore hquote
      refine ⟨⟨content, source, place⟩ :: own, rest, rfl, ?_, hquote, hapart.cons hown⟩
      refine List.forall_mem_cons.mpr ⟨?_, hbefore⟩
      rw [List.length_cons]
      dsimp only
      omega

theorem tokensFrom_quote (clause : Text) (place : Nat) (t behind : Text) :
    ∃ source, tokensFrom clause place (quote t ++ behind) =
      (tokensFrom clause (place + ((quote t ++ behind).length - (Reader.dropSpaces behind).length))
        (Reader.dropSpaces behind)).map (⟨.literal (.text t), source, place⟩ :: ·) := by
  obtain ⟨c, more, hquote, -, hread⟩ := Token.read_quote t behind
  rw [hquote]
  exact tokensFrom_read clause place hread

theorem ReadsApart.quote {first : Text} {contents : List TokenContent} (h : ReadsApart first contents) (clause : Text)
    (place : Nat) (t behind : Text) : ∃ (own : List Token) (next : Nat),
      own.map Token.content = contents ++ [.literal (.text t)] ∧
        tokensFrom clause place (first ++ (Where.quote t ++ behind)) =
          (tokensFrom clause next (Reader.dropSpaces behind)).map (own ++ ·) := by
  obtain ⟨own, hcontents, htokens⟩ := h clause place (Where.quote t ++ behind) (atQuote_quote t behind)
  obtain ⟨source, hliteral⟩ := tokensFrom_quote clause (place + first.length) t behind
  generalize place + first.length + ((Where.quote t ++ behind).length - (Reader.dropSpaces behind).length) = next
    at hliteral
  refine ⟨own ++ [⟨.literal (.text t), source, place + first.length⟩], next, ?_, ?_⟩
  · rw [List.map_append, hcontents]
    rfl
  · rw [htokens, hliteral]
    rcases tokensFrom clause next (Reader.dropSpaces behind) with f | found
    · rfl
    · simp [Except.map]

/-- An empty literal where a token begins is a token. -/
theorem tokensFrom_hole {first after : Text}
    (h : tokensFrom clause place (first ++ (quote [] ++ after)) = .ok found)
    (hhole : ∃ k ∈ found, k.position = place + first.length) :
    ∃ own source rest next, found = own ++ ⟨.literal (.text []), source, place + first.length⟩ :: rest ∧
      (∀ k ∈ own, k.position < place + first.length) ∧ ReadsApart first (own.map Token.content) ∧
      next + (Reader.dropSpaces after).length = place + first.length + (quote []).length + after.length ∧
      tokensFrom clause next (Reader.dropSpaces after) = .ok rest := by
  obtain ⟨own, rest, rfl, hown, hquote, hapart⟩ := tokensFrom_split (atQuote_quote [] after) h (Or.inr hhole)
  obtain ⟨source, hfirst⟩ := tokensFrom_quote clause (place + first.length) [] after
  rw [hfirst] at hquote
  obtain ⟨rest, hrest, rfl⟩ := exists_of_map_eq_ok hquote
  refine ⟨own, source, rest, _, rfl, hown, hapart, ?_, hrest⟩
  have := Reader.length_dropWhile_le Reader.isSpace after
  rw [List.length_append, Reader.dropSpaces]
  omega

/-! ## Literals in the holes -/

variable {first : Text} {more : List (Text × Text)}

/-- Spaces end in front of what is put in the place of a reference. -/
theorem dropSpaces_filled (new : Text → Text) (first : Text) (hnew : ∀ cut ∈ more, ∃ t, new cut.1 = .char '"' :: t) :
    Reader.dropSpaces (filled new first more) = filled new (Reader.dropSpaces first) more := by
  refine Reader.dropSpaces_before_quote ?_ first
  rcases more with _ | ⟨⟨keycode, after⟩, more⟩
  · exact atQuote_nil
  · obtain ⟨t, ht⟩ : ∃ t, new keycode = .char '"' :: t := hnew _ List.mem_cons_self
    rw [List.flatMap_cons]
    dsimp only
    rw [ht]
    exact atQuote_cons _

theorem map_filled_of_lt (value : Text → Text) {holes : List (Nat × Text)} {own : List Token} {bound : Nat}
    (hown : ∀ k ∈ own, k.position < bound) (hholes : ∀ hole ∈ holes, bound ≤ hole.1) :
    own.map (Token.filled value holes) = own.map Token.content := by
  refine List.map_congr_left fun k hk => ?_
  have hnone : holes.lookup k.position = none := by
    rw [List.lookup_eq_none_iff]
    intro hole hh
    have := hown k hk
    have := hholes hole hh
    rw [bne_iff_ne]
    omega
  rw [Token.filled, hnone]

/-- The first hole and the tokens on its sides. -/
theorem map_filled_cons (value : Text → Text) {place : Nat} {keycode source : Text} {holes : List (Nat × Text)}
    {own rest : List Token} (hown : ∀ k ∈ own, k.position < place) (hrest : ∀ k ∈ rest, place < k.position)
    (hholes : ∀ hole ∈ holes, place ≤ hole.1) :
    (own ++ ⟨.literal (.text []), source, place⟩ :: rest).map (Token.filled value ((place, keycode) :: holes)) =
      own.map Token.content ++ [.literal (.text (value keycode))] ++ rest.map (Token.filled value holes) := by
  have hfirst : Token.filled value ((place, keycode) :: holes) ⟨.literal (.text []), source, place⟩ =
      .literal (.text (value keycode)) := by
    rw [Token.filled, List.lookup_cons_self]
  have hbehind : rest.map (Token.filled value ((place, keycode) :: holes)) = rest.map (Token.filled value holes) := by
    refine List.map_congr_left fun k hk => ?_
    rw [Token.filled, List.lookup_cons, beq_false_of_ne (Nat.ne_of_gt (hrest k hk))]
    rfl
  rw [List.map_append, List.map_cons, hfirst, hbehind,
    map_filled_of_lt value hown (List.forall_mem_cons.mpr ⟨Nat.le_refl _, hholes⟩), List.append_assoc,
    List.singleton_append]

/-- What is read in front of the first hole and behind it, each with the other holes. -/
theorem tokensFrom_first {keycode after : Text} (value : Text → Text)
    (h : tokensFrom clause place (filled (fun _ => quote []) first ((keycode, after) :: more)) = .ok found)
    (hholes : ∀ hole ∈ holesFrom place first ((keycode, after) :: more), ∃ k ∈ found, k.position = hole.1) :
    ∃ contents rest next, ReadsApart first contents ∧
      tokensFrom clause next (filled (fun _ => quote []) (Reader.dropSpaces after) more) = .ok rest ∧
      (∀ hole ∈ holesFrom next (Reader.dropSpaces after) more, ∃ k ∈ rest, k.position = hole.1) ∧
      found.map (Token.filled value (holesFrom place first ((keycode, after) :: more))) =
        contents ++ [.literal (.text (value keycode))] ++
          rest.map (Token.filled value (holesFrom next (Reader.dropSpaces after) more)) := by
  rw [filled_cons] at h
  rw [holesFrom, List.forall_mem_cons] at hholes
  obtain ⟨hfirst, hholes⟩ := hholes
  obtain ⟨own, source, rest, next, rfl, hown, hapart, hnext, hrest⟩ := tokensFrom_hole h hfirst
  rw [dropSpaces_filled (fun _ => quote []) after fun _ _ => ⟨_, rfl⟩] at hnext hrest
  have hquote : (quote []).length = 2 := rfl
  have hspaces := Reader.length_dropWhile_le Reader.isSpace after
  simp only [filled, List.length_append, Reader.dropSpaces] at hnext
  have hsame : holesFrom (place + first.length + (quote []).length) after more =
      holesFrom next (Reader.dropSpaces after) more := by
    refine holesFrom_congr ?_
    rw [Reader.dropSpaces]
    omega
  -- the other holes and the other tokens stand behind the first hole
  have hbehind : ∀ hole ∈ holesFrom next (Reader.dropSpaces after) more, place + first.length < hole.1 := by
    intro hole hh
    rw [← hsame] at hh
    have := le_of_holesFrom hole hh
    omega
  have hrestBehind : ∀ k ∈ rest, place + first.length < k.position := by
    intro k hk
    have := place_le_of_tokensFrom hrest k hk
    omega
  rw [holesFrom, hsame]
  rw [hsame] at hholes
  refine ⟨own.map Token.content, rest, next, hapart, hrest, fun hole hh => ?_,
    map_filled_cons value hown hrestBehind fun hole hh => Nat.le_of_lt (hbehind hole hh)⟩
  obtain ⟨k, hk, hplace⟩ := hholes hole hh
  have hafter := hbehind hole hh
  refine ⟨k, ?_, hplace⟩
  rcases List.mem_append.mp hk with hk | hk
  · have := hown k hk
    omega
  rcases List.mem_cons.mp hk with rfl | hk
  · dsimp only at hplace
    omega
  · exact hk

/-- With texts as literals in the holes the tokens are the same but for these texts. -/
theorem tokensFrom_filled (value : Text → Text) (clause' : Text) (place' : Nat)
    (h : tokensFrom clause place (filled (fun _ => quote []) first more) = .ok found)
    (hholes : ∀ hole ∈ holesFrom place first more, ∃ k ∈ found, k.position = hole.1) :
    ∃ found', tokensFrom clause' place' (filled (fun keycode => quote (value keycode)) first more) = .ok found' ∧
      found'.map Token.content = found.map (Token.filled value (holesFrom place first more)) := by
  induction more generalizing first place found place' with
  | nil =>
    obtain ⟨own, rest, rfl, hown, hrest, hapart⟩ := tokensFrom_split atQuote_nil h (Or.inl rfl)
    obtain ⟨own', hcontents, htokens⟩ := hapart clause' place' [] atQuote_nil
    rw [tokensFrom_nil] at hrest htokens
    cases hrest
    refine ⟨own', by rw [filled, List.flatMap_nil, htokens, Except.map, List.append_nil], ?_⟩
    rw [hcontents, List.append_nil, map_filled_of_lt value hown fun hole hh => (by cases hh)]
  | cons cut more ih =>
    obtain ⟨keycode, after⟩ := cut
    obtain ⟨contents, rest, next, hapart, hrest, hrestHoles, hfilled⟩ := tokensFrom_first value h hholes
    obtain ⟨own', next', hcontents, htokens⟩ :=
      hapart.quote clause' place' (value keycode) (filled (fun keycode => quote (value keycode)) after more)
    rw [dropSpaces_filled (fun keycode => quote (value keycode)) after fun _ _ => ⟨_, rfl⟩] at htokens
    obtain ⟨rest', hrest', hrestContents⟩ := ih next' hrest hrestHoles
    rw [filled_cons, htokens, hrest']
    exact ⟨_, rfl, by rw [List.map_append, hcontents, hrestContents, hfilled]⟩

/-- If the tokens are the same but for the names, only quoted names can be in the holes: a broken one
    begins with a literal that holds something else. -/
theorem quote_of_tokensFrom {name new : Text → Text} {clause' : Text} {place' : Nat} {found' : List Token}
    (hnew : ∀ cut ∈ more, IsShown (name cut.1) (new cut.1))
    (h : tokensFrom clause place (filled (fun _ => quote []) first more) = .ok found)
    (hholes : ∀ hole ∈ holesFrom place first more, ∃ k ∈ found, k.position = hole.1)
    (h' : tokensFrom clause' place' (filled new first more) = .ok found')
    (hcontents : found'.map Token.content = found.map (Token.filled name (holesFrom place first more))) :
    ∀ cut ∈ more, new cut.1 = quote (name cut.1) := by
  induction more generalizing first place found place' found' with
  | nil =>
    intro cut hcut
    cases hcut
  | cons cut more ih =>
    obtain ⟨keycode, after⟩ := cut
    obtain ⟨hfirst, hnew⟩ := List.forall_mem_cons.mp hnew
    obtain ⟨contents, rest, next, hapart, hrest, hrestHoles, hfilled⟩ := tokensFrom_first name h hholes
    rw [hfilled, List.append_assoc] at hcontents
    rw [filled_cons] at h'
    rcases hfirst with hwhole | ⟨held, behind, hlength, hbroken⟩
    · dsimp only at hwhole
      obtain ⟨own', next', hown', htokens⟩ := hapart.quote clause' place' (name keycode) (filled new after more)
      rw [hwhole, htokens, dropSpaces_filled new after fun cut hcut => (hnew cut hcut).begins] at h'
      obtain ⟨rest', hrest', rfl⟩ := exists_of_map_eq_ok h'
      rw [List.map_append, hown', List.append_assoc, List.append_cancel_left_eq,
        List.append_cancel_left_eq] at hcontents
      exact List.forall_mem_cons.mpr ⟨hwhole, ih hnew hrest hrestHoles hrest' hcontents⟩
    · dsimp only at hlength hbroken
      rw [hbroken, List.append_assoc] at h'
      obtain ⟨own', next', hown', htokens⟩ :=
        hapart.quote clause' place' held (behind ++ [.char '"'] ++ filled new after more)
      rw [htokens] at h'
      obtain ⟨rest', -, rfl⟩ := exists_of_map_eq_ok h'
      rw [List.map_append, hown', List.append_assoc, List.append_cancel_left_eq, List.singleton_append,
        List.singleton_append] at hcontents
      obtain ⟨hheld, -⟩ := List.cons.inj hcontents
      rw [TokenContent.literal.injEq, Literal.text.injEq] at hheld
      rw [hheld] at hlength
      exact absurd hlength (Nat.lt_irrefl _)

end

/-! ## Whole clauses -/

section
variable {clause : Text} {found : List Token}

theorem references_eq_map (clause : Text) : references clause = (cutReferences clause).2.map Prod.fst := rfl

/-- The spaces in front of a clause are no part of its first token. -/
theorem tokens_filled_eq (new : Text → Text) (first : Text) (more : List (Text × Text))
    (hnew : ∀ cut ∈ more, ∃ t, new cut.1 = .char '"' :: t) : ∃ place,
      place + (Reader.dropSpaces first).length = first.length ∧ tokens (filled new first more) =
        tokensFrom (filled new first more) place (filled new (Reader.dropSpaces first) more) := by
  refine ⟨_, ?_, by rw [tokens, dropSpaces_filled new first hnew]⟩
  have hspaces := congrArg List.length
    (List.takeWhile_append_dropWhile (p := Reader.isSpace) (l := filled new first more))
  have hdrop := congrArg List.length (dropSpaces_filled new first hnew)
  have hshorter := Reader.length_dropWhile_le Reader.isSpace first
  rw [Reader.dropSpaces] at hdrop
  rw [List.length_append, hdrop] at hspaces
  simp only [filled, List.length_append] at hspaces ⊢
  omega

/-- The references of a clause stand as literals of their own: with empty literals in their places, a
    token begins at each of these. -/
def StandAlone (clause : Text) (found : List Token) : Prop := ∀ hole ∈ holes clause, ∃ k ∈ found, k.position = hole.1

instance (clause : Text) (found : List Token) : Decidable (StandAlone clause found) :=
  inferInstanceAs (Decidable (∀ hole ∈ holes clause, ∃ k ∈ found, k.position = hole.1))

theorem holes_eq {place : Nat} {clause : Text}
    (h : place + (Reader.dropSpaces (cutReferences clause).1).length = (cutReferences clause).1.length) :
    holesFrom place (Reader.dropSpaces (cutReferences clause).1) (cutReferences clause).2 = holes clause :=
  holesFrom_congr (by rw [h, Nat.zero_add])

theorem tokensFrom_emptied (h : tokens (emptied clause) = .ok found) : ∃ place,
    place + (Reader.dropSpaces (cutReferences clause).1).length = (cutReferences clause).1.length ∧
      tokensFrom (emptied clause) place (filled (fun _ => quote []) (Reader.dropSpaces (cutReferences clause).1)
        (cutReferences clause).2) = .ok found := by
  obtain ⟨place, hplace, htokens⟩ :=
    tokens_filled_eq (fun _ => quote []) (cutReferences clause).1 (cutReferences clause).2 fun _ _ => ⟨_, rfl⟩
  exact ⟨place, hplace, htokens.symm.trans h⟩

/-- With texts as literals for its references a clause has the same tokens but for these texts. -/
theorem tokens_filled (value : Text → Text) (h : tokens (emptied clause) = .ok found)
    (hholes : StandAlone clause found) :
    ∃ found', tokens (replaceReferences (fun keycode => quote (value keycode)) clause) = .ok found' ∧
      found'.map Token.content = found.map (Token.filled value (holes clause)) := by
  obtain ⟨place, hplace, hfound⟩ := tokensFrom_emptied h
  obtain ⟨place', -, htokens⟩ := tokens_filled_eq (fun keycode => quote (value keycode)) (cutReferences clause).1
    (cutReferences clause).2 fun _ _ => ⟨_, rfl⟩
  rw [StandAlone, ← holes_eq hplace] at hholes
  rw [replaceReferences_eq_filled, htokens, ← holes_eq hplace]
  exact tokensFrom_filled value _ place' hfound hholes

/-- A clause with broken names in it has other tokens. -/
theorem quote_of_tokens {name new : Text → Text} {found' : List Token}
    (hnew : ∀ k ∈ references clause, IsShown (name k) (new k)) (h : tokens (emptied clause) = .ok found)
    (hholes : StandAlone clause found) (h' : tokens (replaceReferences new clause) = .ok found')
    (hcontents : found'.map Token.content = found.map (Token.filled name (holes clause))) :
    ∀ k ∈ references clause, new k = quote (name k) := by
  rw [references_eq_map, List.forall_mem_map] at hnew ⊢
  obtain ⟨place, hplace, hfound⟩ := tokensFrom_emptied h
  obtain ⟨place', -, htokens⟩ := tokens_filled_eq new (cutReferences clause).1 (cutReferences clause).2
    fun cut hcut => (hnew cut hcut).begins
  rw [StandAlone, ← holes_eq hplace] at hholes
  rw [← holes_eq hplace] at hcontents
  rw [replaceReferences_eq_filled, htokens] at h'
  exact quote_of_tokensFrom hnew hfound hholes h' hcontents

/-- What stands in the place of a reference is an empty literal. -/
theorem content_of_holes (h : tokens (emptied clause) = .ok found) (hholes : StandAlone clause found) :
    ∀ k ∈ found, k.content = k.filled (fun _ => []) (holes clause) := by
  obtain ⟨found', hfound', hcontents⟩ := tokens_filled (fun _ => []) h hholes
  obtain rfl : found = found' := Except.ok.inj (h.symm.trans hfound')
  exact List.map_inj_left.mp hcontents

end

end Errand.Where
