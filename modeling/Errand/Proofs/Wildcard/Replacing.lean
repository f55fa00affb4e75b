/-
  Errand.Proofs.Wildcard.Replacing — references replaced one keycode after another.

  A clause gets the quoted names of what it refers to, and gets them in turn: each time the
  whole text is searched for one reference, with the names in it that were put in before. The
  search finds the references of the clause where they stand, since a reference has neither a
  quote nor a backslash in it, so it is never cut by the end of a quoted name nor made by what
  quoting adds. It also finds a reference that is part of a name, and then that name is
  broken: a literal that ends where the reference began (`isBroken_of_present`).

  So all this is one pass over the clause, with something in the place of each reference, and
  that is the quoted name each time if and only if no name has a reference in it that comes
  later in the clause (`replaceAll_inTurn`).
-/

import Errand.Proofs.Text.Numerals
import Errand.Proofs.Where.Tokens
import Errand.Proofs.Wildcard.References

namespace Errand

/-! ## Replacing one text -/

namespace Text
variable {old new : Text}

theorem replaceAll_prefix (hold : old ≠ []) (t : Text) :
    replaceAll old new (old ++ t) = new ++ replaceAll old new t := by
  obtain ⟨c, old, rfl⟩ := List.exists_cons_of_ne_nil hold
  have hprefix : (c :: old).isPrefixOf (c :: (old ++ t)) = true := List.isPrefixOf_iff_prefix.mpr (List.prefix_append _ _)
  show replaceFrom (c :: old) new 0 (c :: (old ++ t)) = _
  rw [replaceFrom, if_pos hprefix, replaceFrom_skip]
  show new ++ replaceFrom (c :: old) new 0 ((old ++ t).drop old.length) = _
  rw [List.drop_left]
  rfl

theorem replaceAll_cons_of_not_begun {c : CodePoint} {t : Text} (h : ¬old <+: c :: t) :
    replaceAll old new (c :: t) = c :: replaceAll old new t := by
  rw [replaceAll, replaceFrom, if_neg fun hprefix => h (List.isPrefixOf_iff_prefix.mp hprefix)]
  rfl

theorem replaceAll_of_absent {t : Text} (h : ¬old <:+: t) : replaceAll old new t = t := by
  induction t with
  | nil => rfl
  | cons c t ih =>
    rw [List.infix_cons_iff, not_or] at h
    rw [replaceAll_cons_of_not_begun h.1, ih h.2]

/-- What is replaced has no part on both sides of a character that is not in it. -/
theorem replaceAll_split {c : CodePoint} (new : Text) (hold : old ≠ []) (hc : c ∉ old) (t u : Text) :
    replaceAll old new (t ++ c :: u) = replaceAll old new t ++ c :: replaceAll old new u := by
  have hhead (u : Text) : ¬old <+: c :: u := by
    obtain ⟨d, old, rfl⟩ := List.exists_cons_of_ne_nil hold
    rw [List.cons_prefix_cons]
    exact fun h => hc (h.1 ▸ List.mem_cons_self)
  have hacross (t : Text) : old <+: t ++ c :: u ↔ old <+: t := by
    refine ⟨fun h => ?_, fun h => h.trans (List.prefix_append _ _)⟩
    rcases List.prefix_or_prefix_of_prefix h (List.prefix_append t (c :: u)) with h' | ⟨rest, rfl⟩
    · exact h'
    · rw [List.prefix_append_right_inj] at h
      rcases rest with _ | ⟨d, rest⟩
      · simp
      · rw [List.cons_prefix_cons] at h
        exact absurd (List.mem_append_right t (h.1 ▸ List.mem_cons_self)) hc
  induction hn : t.length using Nat.strong_induction_on generalizing t with
  | _ n ih =>
    rcases t with _ | ⟨d, t⟩
    · exact replaceAll_cons_of_not_begun (hhead u)
    by_cases hprefix : old <+: d :: t
    · obtain ⟨rest, hrest⟩ := hprefix
      have hshorter : rest.length < n := by
        have := congrArg List.length hrest
        have := List.length_pos_iff.mpr hold
        rw [List.length_append, List.length_cons] at *
        omega
      rw [← hrest, List.append_assoc, replaceAll_prefix hold, replaceAll_prefix hold, ih _ hshorter rest rfl,
        List.append_assoc]
    · have hprefix' : ¬old <+: d :: (t ++ c :: u) := fun h => hprefix ((hacross (d :: t)).mp h)
      have hshorter : t.length < n := by
        rw [← hn]
        exact Nat.lt_succ_self _
      rw [List.cons_append, replaceAll_cons_of_not_begun hprefix', replaceAll_cons_of_not_begun hprefix,
        ih _ hshorter t rfl, List.cons_append]

end Text

/-! ## Quoted names -/

/-- A text that quoting leaves as it is. -/
def IsUnquoted (p : Text) : Prop := .char '"' ∉ p ∧ .char '\\' ∉ p

theorem prefix_escaped_iff {p t : Text} (hp : IsUnquoted p) : p <+: Where.escaped t ↔ p <+: t := by
  induction t generalizing p with
  | nil => exact Iff.rfl
  | cons c t ih =>
    rcases p with _ | ⟨d, p⟩
    · exact iff_of_true List.nil_prefix List.nil_prefix
    rw [Where.escaped_cons]
    split
    · rename_i hc
      rw [List.cons_append, List.cons_prefix_cons, List.cons_prefix_cons]
      refine iff_of_false (fun h => hp.2 (h.1 ▸ List.mem_cons_self)) (fun h => ?_)
      rcases hc with rfl | rfl
      · exact hp.1 (h.1 ▸ List.mem_cons_self)
      · exact hp.2 (h.1 ▸ List.mem_cons_self)
    · have hp' : IsUnquoted p :=
        ⟨fun hmem => hp.1 (List.mem_cons_of_mem _ hmem), fun hmem => hp.2 (List.mem_cons_of_mem _ hmem)⟩
      rw [List.cons_append, List.nil_append, List.cons_prefix_cons, List.cons_prefix_cons, ih hp']

/-- Quoting makes no new part without quotes and backslashes. -/
theorem infix_of_escaped {p t : Text} (hp : IsUnquoted p) (hne : p ≠ []) (h : p <:+: Where.escaped t) : p <:+: t := by
  induction t with
  | nil => exact h
  | cons c t ih =>
    have hwhole : Where.escaped (c :: t) = (if c = '"' ∨ c = '\\' then [.char '\\', c] else [c]) ++ Where.escaped t :=
      Where.escaped_cons c t
    obtain ⟨d, p, rfl⟩ := List.exists_cons_of_ne_nil hne
    split at hwhole
    · rename_i hc
      rw [hwhole, List.cons_append, List.infix_cons_iff, List.cons_append, List.infix_cons_iff, List.nil_append] at h
      rcases h with h | h | h
      · rw [List.cons_prefix_cons] at h
        exact absurd (h.1 ▸ List.mem_cons_self) hp.2
      · rw [List.cons_prefix_cons] at h
        rcases hc with rfl | rfl
        · exact absurd (h.1 ▸ List.mem_cons_self) hp.1
        · exact absurd (h.1 ▸ List.mem_cons_self) hp.2
      · exact List.infix_cons (ih h)
    · rw [hwhole, List.cons_append, List.nil_append, List.infix_cons_iff] at h
      rcases h with h | h
      · refine ((prefix_escaped_iff hp).mp ?_).isInfix
        rw [hwhole]
        exact h
      · exact List.infix_cons (ih h)

theorem reference_eq (k : Text) : reference k = .char '<' :: .char '<' :: (k ++ [.char '>', .char '>']) := rfl

theorem reference_ne_nil (k : Text) : reference k ≠ [] := List.cons_ne_nil _ _

theorem IsKeycode.not_mem {k : Text} (hk : IsKeycode k) {c : CodePoint} (hsmall : Reader.isSmall c = false)
    (hdigit : Text.isAnyDigit c = false) : c ∉ k := by
  obtain ⟨name, number, rfl, -, hname, hnumber, -⟩ := hk
  intro hc
  rcases List.mem_append.mp hc with hc | hc
  · rw [hname c hc] at hsmall
    cases hsmall
  · rw [hnumber c hc] at hdigit
    cases hdigit

theorem IsKeycode.isUnquoted {k : Text} (hk : IsKeycode k) : IsUnquoted (reference k) := by
  have hquote : CodePoint.char '"' ∉ k := hk.not_mem (by decide) (by decide)
  have hslash : CodePoint.char '\\' ∉ k := hk.not_mem (by decide) (by decide)
  simp [IsUnquoted, reference_eq, hquote, hslash]

theorem IsKeycode.ne_nil {k : Text} (hk : IsKeycode k) : k ≠ [] := by
  obtain ⟨name, number, rfl, hname, -⟩ := hk
  exact List.append_ne_nil_of_left_ne_nil hname number

/-! ## The search for one reference -/

section Search
variable {k j : Text} {new : Text}

theorem replaceAll_plain {p : Text} (hp : .char '<' ∉ p) (t : Text) :
    Text.replaceAll (reference k) new (p ++ t) = p ++ Text.replaceAll (reference k) new t := by
  induction p with
  | nil => rfl
  | cons c p ih =>
    rw [List.mem_cons, not_or] at hp
    rw [List.cons_append, Text.replaceAll_cons_of_not_begun, ih hp.2, List.cons_append]
    rw [reference_eq, List.cons_prefix_cons]
    exact fun h => hp.1 h.1

/-- The search goes by another reference as it stands. -/
theorem replaceAll_other (hk : IsKeycode k) (hj : IsKeycode j) (hkj : k ≠ j) (t : Text) :
    Text.replaceAll (reference k) new (reference j ++ t) = reference j ++ Text.replaceAll (reference k) new t := by
  have hfirst : ¬reference k <+: reference j ++ t := by
    rintro ⟨rest, hrest⟩
    have hread := readReference?_of_isKeycode hk rest
    rw [hrest, readReference?_of_isKeycode hj] at hread
    exact hkj (Prod.mk.inj (Option.some.inj hread)).1.symm
  have hopen : CodePoint.char '<' ∉ j := hj.not_mem (by decide) (by decide)
  have hsecond : ¬reference k <+: .char '<' :: (j ++ [.char '>', .char '>'] ++ t) := by
    obtain ⟨c, j, rfl⟩ := List.exists_cons_of_ne_nil hj.ne_nil
    rw [reference_eq, List.cons_prefix_cons, List.cons_append, List.cons_append, List.cons_prefix_cons]
    exact fun h => hopen (h.2.1 ▸ List.mem_cons_self)
  have hrest : CodePoint.char '<' ∉ j ++ [.char '>', .char '>'] := by simpa using hopen
  rw [reference_eq j, List.cons_append, List.cons_append] at hfirst ⊢
  rw [Text.replaceAll_cons_of_not_begun hfirst, Text.replaceAll_cons_of_not_begun hsecond, replaceAll_plain hrest,
    List.cons_append, List.cons_append]

end Search

/-! ## Names in which a reference is replaced -/

/-- What is left of a quoted name that had a reference replaced in it: a literal that holds less
    than the name, and something behind it. -/
def IsBroken (name shown : Text) : Prop :=
  ∃ held behind, held.length < name.length ∧ shown = Where.quote held ++ (behind ++ [.char '"'])

/-- What can stand in the place of a reference when the keycodes had their turns. -/
def IsShown (name shown : Text) : Prop := shown = Where.quote name ∨ IsBroken name shown

section Names
variable {k name name' shown : Text} {new : Text}

theorem quote_eq (t : Text) : Where.quote t = .char '"' :: (Where.escaped t ++ [.char '"']) := rfl

theorem IsShown.begins (h : IsShown name shown) : ∃ t, shown = .char '"' :: t := by
  rcases h with rfl | ⟨held, behind, -, rfl⟩
  · exact ⟨_, rfl⟩
  · exact ⟨_, rfl⟩

theorem IsShown.ends (h : IsShown name shown) : ∃ t, shown = t ++ [.char '"'] := by
  rcases h with rfl | ⟨held, behind, -, rfl⟩
  · exact ⟨_, rfl⟩
  · exact ⟨_, (List.append_assoc _ _ _).symm⟩

/-- The literal in the front holds something else. -/
theorem IsBroken.ne_quote (h : IsBroken name shown) : shown ≠ Where.quote name := by
  obtain ⟨held, behind, hlength, rfl⟩ := h
  intro h
  have hbody := congrArg (fun t => Reader.quotedBody? '"' t.tail) h
  have hheld := Where.quotedBody?_escaped held (behind ++ [.char '"'])
  have hname := Where.quotedBody?_escaped name []
  simp only [quote_eq, List.cons_append, List.tail_cons, List.append_assoc, List.nil_append] at hbody
  rw [hheld, hname, Option.some.injEq, Prod.mk.injEq] at hbody
  rw [hbody.1] at hlength
  exact Nat.lt_irrefl _ hlength

/-- A search ends and begins again at each quote. -/
theorem replaceAll_behind_quote (hk : IsKeycode k) {p : Text} (hp : ∃ front, p = front ++ [.char '"']) (t : Text) :
    Text.replaceAll (reference k) new (p ++ t) =
      Text.replaceAll (reference k) new p ++ Text.replaceAll (reference k) new t := by
  obtain ⟨front, rfl⟩ := hp
  have hsplit := Text.replaceAll_split new (reference_ne_nil k) hk.isUnquoted.1 front
  have hend := hsplit []
  have hnil : Text.replaceAll (reference k) new [] = [] := rfl
  rw [hnil] at hend
  rw [hend, List.append_assoc, List.singleton_append, hsplit, List.append_assoc, List.singleton_append]

theorem replaceAll_quote (hk : IsKeycode k) (name : Text) : Text.replaceAll (reference k) new (Where.quote name) =
    .char '"' :: (Text.replaceAll (reference k) new (Where.escaped name) ++ [.char '"']) := by
  have hsplit := Text.replaceAll_split new (reference_ne_nil k) hk.isUnquoted.1
  exact (hsplit [] (Where.escaped name ++ [.char '"'])).trans (by rw [hsplit])

theorem replaceAll_quote_of_absent (hk : IsKeycode k) (hname : ¬reference k <:+: name) :
    Text.replaceAll (reference k) new (Where.quote name) = Where.quote name := by
  rw [replaceAll_quote hk, Text.replaceAll_of_absent, quote_eq]
  exact fun h => hname (infix_of_escaped hk.isUnquoted (reference_ne_nil k) h)

/-- The first reference in a name is replaced, and in front of it nothing is. -/
theorem replaceAll_escaped (new : Text) (hk : IsKeycode k) (hname : reference k <:+: name) :
    ∃ held behind, held.length < name.length ∧
      Text.replaceAll (reference k) new (Where.escaped name) = Where.escaped held ++ (new ++ behind) := by
  induction name with
  | nil => exact absurd (List.infix_nil.mp hname) (reference_ne_nil k)
  | cons c name ih =>
    by_cases hprefix : reference k <+: Where.escaped (c :: name)
    · obtain ⟨behind, hbehind⟩ := hprefix
      exact ⟨[], _, Nat.succ_pos _, by rw [← hbehind, Text.replaceAll_prefix (reference_ne_nil k)]; rfl⟩
    · have hinside : reference k <:+: name :=
        (List.infix_cons_iff.mp hname).resolve_left fun h => hprefix ((prefix_escaped_iff hk.isUnquoted).mpr h)
      obtain ⟨held, behind, hlength, hreplaced⟩ := ih hinside
      refine ⟨c :: held, behind, Nat.succ_lt_succ hlength, ?_⟩
      rw [Where.escaped_cons] at hprefix
      rw [Where.escaped_cons, Where.escaped_cons, List.append_assoc, ← hreplaced]
      split at hprefix
      · rename_i hc
        rw [if_pos hc]
        refine replaceAll_plain ?_ _
        rcases hc with rfl | rfl
        · decide
        · decide
      · rename_i hc
        rw [if_neg hc]
        exact Text.replaceAll_cons_of_not_begun hprefix

theorem isBroken_of_present (name' : Text) (hk : IsKeycode k) (hname : reference k <:+: name) :
    IsBroken name (Text.replaceAll (reference k) (Where.quote name') (Where.quote name)) := by
  obtain ⟨held, behind, hlength, hreplaced⟩ := replaceAll_escaped (Where.quote name') hk hname
  refine ⟨held, Where.escaped name' ++ [.char '"'] ++ behind, hlength, ?_⟩
  rw [replaceAll_quote hk, hreplaced]
  simp [quote_eq]

theorem IsBroken.replaceAll (hk : IsKeycode k) (h : IsBroken name shown) :
    IsBroken name (Text.replaceAll (reference k) (Where.quote name') shown) := by
  obtain ⟨held, behind, hlength, rfl⟩ := h
  rw [replaceAll_behind_quote hk (p := Where.quote held) ⟨_, rfl⟩]
  have hbehind : Text.replaceAll (reference k) (Where.quote name') (behind ++ [.char '"']) =
      Text.replaceAll (reference k) (Where.quote name') behind ++ [.char '"'] :=
    Text.replaceAll_split _ (reference_ne_nil k) hk.isUnquoted.1 behind []
  rw [hbehind]
  by_cases hheld : reference k <:+: held
  · obtain ⟨held', behind', hlength', hreplaced⟩ := isBroken_of_present name' hk hheld
    rw [hreplaced]
    exact ⟨held', behind' ++ [.char '"'] ++ Text.replaceAll (reference k) (Where.quote name') behind,
      hlength'.trans hlength, by simp only [List.append_assoc]⟩
  · rw [replaceAll_quote_of_absent hk hheld]
    exact ⟨held, _, hlength, rfl⟩

theorem IsShown.replaceAll (hk : IsKeycode k) (h : IsShown name shown) :
    IsShown name (Text.replaceAll (reference k) (Where.quote name') shown) := by
  rcases h with rfl | h
  · by_cases hname : reference k <:+: name
    · exact Or.inr (isBroken_of_present _ hk hname)
    · exact Or.inl (replaceAll_quote_of_absent hk hname)
  · exact Or.inr (h.replaceAll hk)

/-- A quoted name stays whole if it was whole and has not got the reference in it. -/
theorem IsShown.replaceAll_eq_quote_iff (hk : IsKeycode k) (h : IsShown name shown) :
    Text.replaceAll (reference k) (Where.quote name') shown = Where.quote name ↔
      shown = Where.quote name ∧ ¬reference k <:+: name := by
  rcases h with rfl | h
  · rw [eq_self_iff_true, true_and]
    exact ⟨fun heq hname => (isBroken_of_present _ hk hname).ne_quote heq, replaceAll_quote_of_absent hk⟩
  · exact iff_of_false (h.replaceAll hk).ne_quote fun hwhole => h.ne_quote hwhole.1

end Names

/-! ## One keycode after another -/

section Replace
variable {new new' : Text → Text}

theorem replaceReferences_nil : replaceReferences new [] = [] := by
  rw [replaceReferences, cutReferences]
  rfl

theorem replaceReferences_found {t k after : Text} (h : readReference? t = some (k, after)) :
    replaceReferences new t = new k ++ replaceReferences new after := by
  simp [replaceReferences, cutReferences_found h]

theorem replaceReferences_none {c : CodePoint} {t : Text} (h : readReference? (c :: t) = none) :
    replaceReferences new (c :: t) = c :: replaceReferences new t := by
  simp [replaceReferences, cutReferences_none h]

theorem replaceReferences_congr {t : Text} (h : ∀ k ∈ references t, new k = new' k) :
    replaceReferences new t = replaceReferences new' t := by
  fun_induction cutReferences t with
  | case1 => rw [replaceReferences_nil, replaceReferences_nil]
  | case2 c t k after hread _ _ _ ih =>
    rw [references_found hread, List.forall_mem_cons] at h
    rw [replaceReferences_found hread, replaceReferences_found hread, h.1, ih h.2]
  | case3 c t hread _ _ _ ih =>
    rw [references_none hread] at h
    rw [replaceReferences_none hread, replaceReferences_none hread, ih h]

theorem replaceReferences_reference (t : Text) : replaceReferences reference t = t := by
  fun_induction cutReferences t with
  | case1 => exact replaceReferences_nil
  | case2 c t k after hread _ _ _ ih => rw [replaceReferences_found hread, ih, ← (readReference?_spec hread).1]
  | case3 c t hread _ _ _ ih => rw [replaceReferences_none hread, ih]

theorem isKeycode_of_references {t k : Text} (h : k ∈ references t) : IsKeycode k := by
  fun_induction cutReferences t with
  | case1 =>
    rw [references_nil] at h
    cases h
  | case2 c t k' after hread _ _ _ ih =>
    rw [references_found hread] at h
    rcases List.mem_cons.mp h with rfl | h
    · exact (readReference?_spec hread).2
    · exact ih h
  | case3 c t hread _ _ _ ih =>
    rw [references_none hread] at h
    exact ih h

/-- Something for the references that had their turn, and the others as they are. -/
def shownFor (shown : Text → Text) (done : List Text) (k : Text) : Text :=
  if k ∈ done then shown k else reference k

variable {shown : Text → Text} {done : List Text}

/-- What has no quote in it and begins a text with names in it begins the text itself. -/
theorem prefix_of_replaced (hshown : ∀ k ∈ done, ∃ t, shown k = .char '"' :: t) {p t : Text} (hp : .char '"' ∉ p)
    (h : p <+: replaceReferences (shownFor shown done) t) : p <+: t := by
  fun_induction cutReferences t generalizing p with
  | case1 =>
    rw [replaceReferences_nil] at h
    exact h
  | case2 c t k after hread _ _ _ ih =>
    rw [replaceReferences_found hread, shownFor] at h
    split at h
    · rename_i hdone
      rcases p with _ | ⟨d, p⟩
      · exact List.nil_prefix
      · obtain ⟨t', ht'⟩ := hshown k hdone
        rw [ht'] at h
        have hd : d = .char '"' := (List.cons_prefix_cons.mp h).1
        exact absurd (hd ▸ List.mem_cons_self) hp
    · rw [(readReference?_spec hread).1]
      rcases List.prefix_or_prefix_of_prefix h (List.prefix_append _ _) with hshort | ⟨rest, rfl⟩
      · exact hshort.trans (List.prefix_append _ _)
      · rw [List.prefix_append_right_inj] at h ⊢
        exact ih (fun hmem => hp (List.mem_append_right _ hmem)) h
  | case3 c t hread _ _ _ ih =>
    rcases p with _ | ⟨d, p⟩
    · exact List.nil_prefix
    rw [replaceReferences_none hread, List.cons_prefix_cons] at h
    rw [List.cons_prefix_cons]
    exact ⟨h.1, ih (fun hmem => hp (List.mem_cons_of_mem _ hmem)) h.2⟩

/-- What stands in the place of a reference after one more keycode had its turn. -/
def turned (name : Text → Text) (k : Text) (done : List Text) (shown : Text → Text) (j : Text) : Text :=
  if j ∈ done then Text.replaceAll (reference k) (Where.quote (name k)) (shown j) else Where.quote (name k)

variable {name : Text → Text} {k : Text}

theorem replaceAll_shown (hk : IsKeycode k) (hshown : ∀ j ∈ done, IsShown (name j) (shown j)) (t : Text) :
    Text.replaceAll (reference k) (Where.quote (name k)) (replaceReferences (shownFor shown done) t) =
      replaceReferences (shownFor (turned name k done shown) (done ++ [k])) t := by
  fun_induction cutReferences t with
  | case1 => simp only [replaceReferences_nil]; rfl
  | case2 c t j after hread _ _ _ ih =>
    obtain ⟨-, hj⟩ := readReference?_spec hread
    rw [replaceReferences_found hread, replaceReferences_found hread, ← ih]
    by_cases hdone : j ∈ done
    · rw [shownFor, if_pos hdone, shownFor, if_pos (List.mem_append_left _ hdone), turned, if_pos hdone,
        replaceAll_behind_quote hk (hshown j hdone).ends]
    by_cases hkj : k = j
    · subst hkj
      rw [shownFor, if_neg hdone, shownFor, if_pos (List.mem_append_right _ List.mem_cons_self), turned, if_neg hdone,
        Text.replaceAll_prefix (reference_ne_nil k)]
    · have hnot : j ∉ done ++ [k] := by simp [hdone, Ne.symm hkj]
      rw [shownFor, if_neg hdone, shownFor, if_neg hnot, replaceAll_other hk hj hkj]
  | case3 c t hread _ _ _ ih =>
    rw [replaceReferences_none hread, replaceReferences_none hread, ← ih]
    refine Text.replaceAll_cons_of_not_begun fun hprefix => ?_
    -- a reference that begins here would have been read here
    have hnone : replaceReferences (shownFor shown done) (c :: t) = c :: replaceReferences (shownFor shown done) t :=
      replaceReferences_none hread
    rw [← hnone] at hprefix
    obtain ⟨rest, hrest⟩ := prefix_of_replaced (fun j hj => (hshown j hj).begins) hk.isUnquoted.1 hprefix
    have hfound := readReference?_of_isKeycode hk rest
    rw [hrest, hread] at hfound
    cases hfound

/-- No name has a reference in it that comes later, or again. -/
def NamesApart (name : Text → Text) (keycodes : List Text) : Prop :=
  keycodes.Pairwise fun k j => ¬reference j <:+: name k

instance (name : Text → Text) (keycodes : List Text) : Decidable (NamesApart name keycodes) :=
  inferInstanceAs (Decidable (keycodes.Pairwise fun k j => ¬reference j <:+: name k))

/-- The names that had their turn are whole or broken, and all of them are whole if and only if they
    are apart. -/
structure Turned (name : Text → Text) (done : List Text) (shown : Text → Text) : Prop where
  each : ∀ j ∈ done, IsShown (name j) (shown j)
  apart : NamesApart name done ↔ ∀ j ∈ done, shown j = Where.quote (name j)

theorem Turned.step (hk : IsKeycode k) (h : Turned name done shown) :
    Turned name (done ++ [k]) (turned name k done shown) := by
  have hold : ∀ {j}, j ∈ done →
      turned name k done shown j = Text.replaceAll (reference k) (Where.quote (name k)) (shown j) := fun hj => if_pos hj
  have hnew : ∀ {j}, j ∈ done ++ [k] → j ∉ done → turned name k done shown j = Where.quote (name j) := by
    intro j hj hdone
    obtain rfl : j = k := List.mem_singleton.mp ((List.mem_append.mp hj).resolve_left hdone)
    exact if_neg hdone
  constructor
  · intro j hj
    by_cases hdone : j ∈ done
    · rw [hold hdone]
      exact (h.each j hdone).replaceAll hk
    · exact Or.inl (hnew hj hdone)
  · have hwhole : (∀ j ∈ done ++ [k], turned name k done shown j = Where.quote (name j)) ↔
        ∀ j ∈ done, shown j = Where.quote (name j) ∧ ¬reference k <:+: name j := by
      constructor
      · intro hall j hj
        have hj' := hall j (List.mem_append_left _ hj)
        rw [hold hj] at hj'
        exact ((h.each j hj).replaceAll_eq_quote_iff hk).mp hj'
      · intro hall j hj
        by_cases hdone : j ∈ done
        · rw [hold hdone]
          exact ((h.each j hdone).replaceAll_eq_quote_iff hk).mpr (hall j hdone)
        · exact hnew hj hdone
    rw [hwhole, NamesApart, List.pairwise_append, ← NamesApart, h.apart]
    simp only [List.pairwise_singleton, List.mem_singleton, forall_eq, true_and, forall_and]

/-- One keycode after another: each reference is replaced by its quoted name, or by what is left of
    that, and all by their names if and only if these are apart. -/
theorem replaceAll_inTurn (name : Text → Text) (t : Text) : ∃ shown, Turned name (references t) shown ∧
    (references t).foldl (fun u k => Text.replaceAll (reference k) (Where.quote (name k)) u) t =
      replaceReferences shown t := by
  have hturns : ∀ (keycodes done : List Text) (shown : Text → Text), (∀ k ∈ keycodes, IsKeycode k) →
      Turned name done shown → ∃ shown', Turned name (done ++ keycodes) shown' ∧
        keycodes.foldl (fun u k => Text.replaceAll (reference k) (Where.quote (name k)) u)
          (replaceReferences (shownFor shown done) t) = replaceReferences (shownFor shown' (done ++ keycodes)) t := by
    intro keycodes
    induction keycodes with
    | nil =>
      intro done shown _ hturned
      rw [List.append_nil]
      exact ⟨shown, hturned, rfl⟩
    | cons k keycodes ih =>
      intro done shown hkeycodes hturned
      obtain ⟨hk, hkeycodes⟩ := List.forall_mem_cons.mp hkeycodes
      rw [List.foldl_cons, replaceAll_shown hk hturned.each, List.append_cons]
      exact ih _ _ hkeycodes (hturned.step hk)
  have hnone : replaceReferences (shownFor reference []) t = t := by
    have hshown : shownFor reference [] = reference := funext fun k => if_neg List.not_mem_nil
    rw [hshown, replaceReferences_reference]
  have hstart : Turned name [] reference :=
    ⟨fun j hj => (by cases hj), iff_of_true List.Pairwise.nil fun j hj => (by cases hj)⟩
  obtain ⟨shown, hturned, hall⟩ := hturns (references t) [] reference (fun k => isKeycode_of_references) hstart
  rw [List.nil_append, hnone] at hall
  refine ⟨shown, hturned, hall.trans ?_⟩
  exact replaceReferences_congr fun k hk => if_pos hk

end Replace

end Errand
