/-
  Errand.Wildcard.Marker — one wildcard marker, without regard to what is nested
  in it.

  In curly brackets stand a name, a question mark if what the wildcard stands for
  shall not be told, a subtype, a number, a where clause and metadata; all but the
  name may be missing. What is none of these is passed over. A marker that is
  never closed is no marker; one whose number is not below the automatic ones is
  a fault.
-/

import Errand.Text.Bracket
import Errand.Text.Display
import Errand.Text.Reader

namespace Errand

/-! ## Faults -/

/-- The first of the automatic numbers. -/
def firstAutomatic : Nat := 1000

/-- Why a marker is none although it looks like one. -/
inductive MarkerFault where
  /-- The number has more digits than any may have; `rest` is the text from the
      marker on. -/
  | numberTooLong (rest : Text)
  | numberReserved (number : Nat) (marker : Text)
  deriving DecidableEq, Repr

def MarkerFault.message : MarkerFault → Text
  | .numberTooLong rest => "Wildcard id too long in ".text ++ Text.shown rest ++
      " (use ids below ".text ++ decimal firstAutomatic ++ ")".text
  | .numberReserved number marker => "Wildcard id ".text ++ decimal number ++ " in ".text ++
      Text.shown marker ++ " is reserved (use ids below ".text ++ decimal firstAutomatic ++ ")".text

/-! ## The parts of a marker -/

/-- What stands in front of the clause. -/
structure MarkerHead where
  name : Text
  obfuscated : Bool
  subtype : Option Text
  number : Option Nat
  deriving DecidableEq, Repr

/-- The clause and the metadata as they are written. -/
structure MarkerBody where
  clause : Option Text
  metadata : Option Text
  deriving DecidableEq, Repr

structure Marker extends MarkerHead, MarkerBody where
  /-- The marker from bracket to bracket. -/
  text : Text
  deriving DecidableEq, Repr

namespace MarkerHead

/-- Words that are no subtypes. -/
def isReserved (word : Text) : Bool := word = "meta".text || word = "where".text

/-- Whether a question mark stands here. -/
def readMark (t : Text) : Bool × Text :=
  match Reader.char? '?' t with
  | some after => (true, after)
  | none => (false, t)

/-- A subtype if one stands here. -/
def readSubtype (t : Text) : Option Text × Text :=
  match Reader.smallRun t with
  | ([], _) => (none, t)
  | (word, after) => if isReserved word then (none, t) else (some word, after)

/-- The most digits a number may have. -/
def maxDigits : Nat := 5

/-- A number if one stands here; none at all if it is too long. -/
def readNumber? (t : Text) : Option (Option Nat × Text) :=
  match Reader.digits? maxDigits t with
  | some (digits, after) => some (some (Numeral.value digits), after)
  | none => if (t.takeWhile Reader.isDigit).isEmpty then some (none, t) else none

/-- The head that follows an opening bracket. -/
def read (t : Text) : Except MarkerFault (Option (MarkerHead × Text)) :=
  let name := Reader.smallRun (Reader.dropSpaces t)
  let mark := readMark name.2
  let subtype := readSubtype (Reader.dropSpaces mark.2)
  match name.1, readNumber? (Reader.dropSpaces subtype.2) with
  | [], _ => .ok none
  | _, some (number, after) => .ok (some (⟨name.1, mark.1, subtype.1, number⟩, after))
  | _, none => .error (.numberTooLong ('\x7b' :: t))

end MarkerHead

/-- What follows the word `meta` and its colon. -/
def metadataMark? (t : Text) : Option Text :=
  (Reader.keyword? "meta".text t).bind fun after => Reader.char? ':' (Reader.dropSpaces after)

/-- A character in front of a clause. -/
def consClause (c : CodePoint) : Option (Text × Text) → Option (Text × Text)
  | some (clause, after) => some (c :: clause, after)
  | none => none

/-- The clause that goes on here, up to the bracket that closes its marker or to
    its metadata, and the text from there on. Brackets inside are skipped in
    pairs, and outside them so are quoted texts; `before` is the character in
    front. -/
def clauseFrom (quote : Option CodePoint) (depth : Nat) (before : CodePoint) : Text → Option (Text × Text)
  | [] => none
  | .char '\\' :: [] => none
  | .char '\\' :: c :: rest => consClause '\\' (consClause c (clauseFrom quote depth c rest))
  | c :: rest =>
    match quote with
    | some q => consClause c (clauseFrom (if c = q then none else some q) depth c rest)
    | none =>
      if depth = 0 && Reader.isQuote c then consClause c (clauseFrom (some c) depth c rest)
      else if c = '\x7b' then consClause c (clauseFrom none (depth + 1) c rest)
      else if c = '\x7d' then
        if depth = 0 then some ([], c :: rest)
        else consClause c (clauseFrom none (depth - 1) c rest)
      else if depth = 0 && !Reader.isNameChar before && (metadataMark? (c :: rest)).isSome then
        some ([], c :: rest)
      else consClause c (clauseFrom none depth c rest)

namespace MarkerBody

/-- The clause that follows the word `where`, if the word stands here. A clause
    without an end is no marker. -/
def readClause? (t : Text) : Option (Option Text × Text) :=
  match Reader.keyword? "where".text t with
  | none => some (none, t)
  | some rest => (clauseFrom none 0 'e' rest).map fun (clause, after) => (some (Text.trim clause), after)

/-- The body up to the closing bracket, and what follows that. -/
def read? (t : Text) : Option (MarkerBody × Text) :=
  match readClause? (Reader.dropSpaces t) with
  | none => none
  | some (clause, afterClause) =>
    let t := Reader.dropSpaces afterClause
    match metadataMark? t with
    | some inside => (Bracket.closing? .curly inside).map fun (metadata, after) =>
        (⟨clause, some metadata⟩, after)
    | none => (Bracket.closing? .curly t).map fun (_, after) => (⟨clause, none⟩, after)

end MarkerBody

namespace Marker

/-- The marker whose opening bracket is in front of the text, and what follows
    it; none if the text there is no marker. -/
def read (t : Text) : Except MarkerFault (Option (Marker × Text)) :=
  match MarkerHead.read t with
  | .error f => .error f
  | .ok none => .ok none
  | .ok (some (head, afterHead)) =>
    match MarkerBody.read? afterHead with
    | none => .ok none
    | some (body, after) =>
      let text : Text := '\x7b' :: t.take (t.length - after.length)
      match head.number with
      | some n =>
        if firstAutomatic ≤ n then .error (.numberReserved n text)
        else .ok (some (⟨head, body, text⟩, after))
      | none => .ok (some (⟨head, body, text⟩, after))

end Marker

/-! ## What is inside and behind a marker is a part of the text -/

theorem consClause_eq_some {c : CodePoint} {o : Option (Text × Text)} {clause after : Text}
    (h : consClause c o = some (clause, after)) :
    ∃ inside, clause = c :: inside ∧ o = some (inside, after) := by
  unfold consClause at h
  split at h
  · simp only [Option.some.injEq, Prod.mk.injEq] at h
    obtain ⟨rfl, rfl⟩ := h
    exact ⟨_, rfl, rfl⟩
  · simp at h

theorem clauseFrom_eq {quote : Option CodePoint} {depth : Nat} {before : CodePoint} {t clause after : Text}
    (h : clauseFrom quote depth before t = some (clause, after)) : t = clause ++ after := by
  fun_induction clauseFrom quote depth before t generalizing clause after with
  | case1 => simp at h
  | case2 => simp at h
  | case3 _ _ _ c rest ih =>
    obtain ⟨_, rfl, h₁⟩ := consClause_eq_some h
    obtain ⟨_, rfl, h₂⟩ := consClause_eq_some h₁
    simp [ih h₂]
  | case7 => simp_all
  | case9 => simp_all
  | case4 | case5 | case6 | case8 | case10 =>
    rename_i ih
    obtain ⟨_, rfl, hi⟩ := consClause_eq_some h
    simp [ih hi]

namespace MarkerBody

theorem readClause?_cases {t after : Text} {clause : Option Text} (h : readClause? t = some (clause, after)) :
    (Reader.keyword? "where".text t = none ∧ clause = none ∧ after = t) ∨
      ∃ rest raw, Reader.keyword? "where".text t = some rest ∧ clauseFrom none 0 'e' rest = some (raw, after) ∧
        clause = some (Text.trim raw) := by
  unfold readClause? at h
  split at h
  · rename_i hword
    cases h
    exact Or.inl ⟨hword, rfl, rfl⟩
  · rename_i rest hword
    obtain ⟨⟨raw, after'⟩, hraw, he⟩ := Option.map_eq_some_iff.mp h
    cases he
    exact Or.inr ⟨rest, raw, hword, hraw, rfl⟩

/-- Behind the clause stand metadata, or a text that is skipped, up to the closing bracket. -/
theorem read?_cases {t after : Text} {body : MarkerBody} (h : read? t = some (body, after)) :
    ∃ afterClause, readClause? (Reader.dropSpaces t) = some (body.clause, afterClause) ∧
      ((∃ inside metadata, metadataMark? (Reader.dropSpaces afterClause) = some inside ∧
          Bracket.closing? .curly inside = some (metadata, after) ∧ body.metadata = some metadata) ∨
        ∃ skipped, metadataMark? (Reader.dropSpaces afterClause) = none ∧
          Bracket.closing? .curly (Reader.dropSpaces afterClause) = some (skipped, after) ∧ body.metadata = none) := by
  unfold read? at h
  split at h
  · cases h
  · rename_i clause afterClause hclause
    dsimp only at h
    split at h
    · rename_i inside hmark
      obtain ⟨⟨metadata, after'⟩, hclosing, he⟩ := Option.map_eq_some_iff.mp h
      cases he
      exact ⟨afterClause, hclause, Or.inl ⟨inside, metadata, hmark, hclosing, rfl⟩⟩
    · rename_i hmark
      obtain ⟨⟨skipped, after'⟩, hclosing, he⟩ := Option.map_eq_some_iff.mp h
      cases he
      exact ⟨afterClause, hclause, Or.inr ⟨skipped, hmark, hclosing, rfl⟩⟩

end MarkerBody

namespace Marker

/-- A marker is a head, a body and a number that is not too large. -/
theorem read_eq_ok_iff {t after : Text} {m : Marker} : read t = .ok (some (m, after)) ↔
    ∃ head afterHead body, MarkerHead.read t = .ok (some (head, afterHead)) ∧
      MarkerBody.read? afterHead = some (body, after) ∧ (∀ n ∈ head.number, n < firstAutomatic) ∧
      m = ⟨head, body, .char '\x7b' :: t.take (t.length - after.length)⟩ := by
  rw [read]
  rcases MarkerHead.read t with f | _ | ⟨head, afterHead⟩
  · simp
  · simp
  rcases hb : MarkerBody.read? afterHead with _ | ⟨body, rest⟩
  · simp [hb]
  rcases hn : head.number with _ | n
  · constructor
    · intro h
      simp only [hb, hn, Except.ok.injEq, Option.some.injEq, Prod.mk.injEq] at h
      obtain ⟨rfl, rfl⟩ := h
      exact ⟨head, afterHead, body, rfl, hb, by simp [hn], rfl⟩
    · rintro ⟨head', afterHead', body', hh, hb', -, rfl⟩
      cases hh
      rw [hb] at hb'
      cases hb'
      simp only [hb, hn]
  · by_cases hle : firstAutomatic ≤ n
    · constructor
      · intro h
        simp only [hb, hn, if_pos hle, reduceCtorEq] at h
      · rintro ⟨head', afterHead', body', hh, -, hlt, -⟩
        cases hh
        have := hlt n hn
        omega
    · constructor
      · intro h
        simp only [hb, hn, if_neg hle, Except.ok.injEq, Option.some.injEq, Prod.mk.injEq] at h
        obtain ⟨rfl, rfl⟩ := h
        refine ⟨head, afterHead, body, rfl, hb, fun k hk => ?_, rfl⟩
        rw [hn] at hk
        cases hk
        omega
      · rintro ⟨head', afterHead', body', hh, hb', -, rfl⟩
        cases hh
        rw [hb] at hb'
        cases hb'
        simp only [hb, hn, if_neg hle]

theorem readMark_suffix (t : Text) : (MarkerHead.readMark t).2 <:+ t := by
  unfold MarkerHead.readMark
  split
  · rename_i after h
    rw [Reader.char?_eq_some_iff.mp h]
    exact List.suffix_cons _ _
  · exact List.suffix_refl t

theorem readSubtype_suffix (t : Text) : (MarkerHead.readSubtype t).2 <:+ t := by
  unfold MarkerHead.readSubtype
  split
  · exact List.suffix_refl t
  · rename_i word after _ h
    split
    · exact List.suffix_refl t
    · rw [Reader.smallRun] at h
      cases h
      exact List.dropWhile_suffix _

theorem readNumber?_suffix {t after : Text} {number : Option Nat}
    (h : MarkerHead.readNumber? t = some (number, after)) : after <:+ t := by
  unfold MarkerHead.readNumber? at h
  split at h
  · rename_i hdigits
    cases h
    exact Reader.digits?_suffix hdigits
  · split at h
    · cases h
      exact List.suffix_refl t
    · cases h

theorem head_suffix {t after : Text} {head : MarkerHead} (h : MarkerHead.read t = .ok (some (head, after))) :
    after <:+ t := by
  rw [MarkerHead.read] at h
  split at h
  · cases h
  · rename_i number rest hnumber _
    cases h
    exact (readNumber?_suffix hnumber).trans ((List.dropWhile_suffix _).trans ((readSubtype_suffix _).trans
      ((List.dropWhile_suffix _).trans ((readMark_suffix _).trans ((List.dropWhile_suffix _).trans
        (List.dropWhile_suffix _))))))
  · cases h

theorem metadataMark?_suffix {t after : Text} (h : metadataMark? t = some after) : after <:+ t := by
  obtain ⟨rest, hkeyword, hcolon⟩ := Option.bind_eq_some_iff.mp h
  rw [(Reader.keyword?_eq_some_iff.mp hkeyword).1]
  have hspaces : Reader.dropSpaces rest <:+ rest := List.dropWhile_suffix _
  rw [Reader.char?_eq_some_iff.mp hcolon] at hspaces
  exact (List.suffix_cons _ _).trans (hspaces.trans (List.suffix_append _ _))

theorem clauseFrom_suffix {t rest raw after : Text} (hword : Reader.keyword? "where".text t = some rest)
    (hraw : clauseFrom none 0 'e' rest = some (raw, after)) : raw ++ after <:+ t := by
  rw [(Reader.keyword?_eq_some_iff.mp hword).1, clauseFrom_eq hraw]
  exact List.suffix_append _ _

theorem readClause?_suffix {t after : Text} {clause : Option Text}
    (h : MarkerBody.readClause? t = some (clause, after)) : after <:+ t := by
  rcases MarkerBody.readClause?_cases h with ⟨-, -, rfl⟩ | ⟨rest, raw, hword, hraw, -⟩
  · exact List.suffix_refl _
  · exact (List.suffix_append raw after).trans (clauseFrom_suffix hword hraw)

theorem afterClause_suffix {t afterClause : Text} {clause : Option Text}
    (h : MarkerBody.readClause? (Reader.dropSpaces t) = some (clause, afterClause)) :
    Reader.dropSpaces afterClause <:+ t :=
  (List.dropWhile_suffix _).trans ((readClause?_suffix h).trans (List.dropWhile_suffix _))

/-- A body ends with the closing bracket. -/
theorem body_suffix {t after : Text} {body : MarkerBody} (h : MarkerBody.read? t = some (body, after)) :
    (.char '\x7d' :: after) <:+ t := by
  have hclosing {u inside : Text} (hu : Bracket.closing? .curly u = some (inside, after)) :
      (.char '\x7d' :: after) <:+ u := by
    rw [Bracket.closing?_eq hu]
    exact List.suffix_append _ _
  obtain ⟨afterClause, hclause, hrest⟩ := MarkerBody.read?_cases h
  rcases hrest with ⟨inside, metadata, hmark, hend, -⟩ | ⟨skipped, -, hend, -⟩
  · exact (hclosing hend).trans ((metadataMark?_suffix hmark).trans (afterClause_suffix hclause))
  · exact (hclosing hend).trans (afterClause_suffix hclause)

theorem read_suffix {t after : Text} {m : Marker} (h : read t = .ok (some (m, after))) :
    (.char '\x7d' :: after) <:+ t := by
  obtain ⟨head, afterHead, body, hhead, hbody, -, -⟩ := read_eq_ok_iff.mp h
  exact (body_suffix hbody).trans (head_suffix hhead)

/-- The clause is a piece of the text, -/
theorem clause_sublist {t after raw : Text} {m : Marker} (h : read t = .ok (some (m, after)))
    (hraw : m.clause = some raw) : raw.Sublist t := by
  obtain ⟨head, afterHead, body, hhead, hbody, -, rfl⟩ := read_eq_ok_iff.mp h
  obtain ⟨afterClause, hclause, -⟩ := MarkerBody.read?_cases hbody
  rcases MarkerBody.readClause?_cases hclause with ⟨-, hnone, -⟩ | ⟨rest, written, hword, hwritten, hsome⟩
  · cases hraw.symm.trans hnone
  · obtain rfl := Option.some.inj (hraw.symm.trans hsome)
    have hpiece := (clauseFrom_suffix hword hwritten).trans ((List.dropWhile_suffix _).trans (head_suffix hhead))
    exact (Text.trim_sublist written).trans ((List.sublist_append_left _ _).trans hpiece.sublist)

/-- and so are the metadata. -/
theorem metadata_sublist {t after raw : Text} {m : Marker} (h : read t = .ok (some (m, after)))
    (hraw : m.metadata = some raw) : raw.Sublist t := by
  obtain ⟨head, afterHead, body, hhead, hbody, -, rfl⟩ := read_eq_ok_iff.mp h
  obtain ⟨afterClause, hclause, hrest⟩ := MarkerBody.read?_cases hbody
  rcases hrest with ⟨inside, metadata, hmark, hend, hsome⟩ | ⟨-, -, -, hnone⟩
  · obtain rfl := Option.some.inj (hraw.symm.trans hsome)
    have hinside : raw.Sublist inside := by
      rw [Bracket.closing?_eq hend]
      exact List.sublist_append_left _ _
    have hpiece := (metadataMark?_suffix hmark).trans ((afterClause_suffix hclause).trans (head_suffix hhead))
    exact hinside.trans hpiece.sublist
  · cases hraw.symm.trans hnone

theorem read_length {t after : Text} {m : Marker} (h : read t = .ok (some (m, after))) :
    after.length ≤ t.length ∧ (∀ c ∈ m.clause, c.length ≤ t.length) ∧
      ∀ d ∈ m.metadata, d.length ≤ t.length :=
  ⟨((List.suffix_cons _ _).trans (read_suffix h)).length_le, fun _ hc => (clause_sublist h hc).length_le,
    fun _ hd => (metadata_sublist h hd).length_le⟩

end Marker

end Errand
