/-
  Errand.Proofs.Wildcard.Refusing — which texts a scan refuses.

  A scan asks for a marker at the brackets it comes to: in the text, and in the clauses and
  the metadata of the markers that it reads there (`Reaches`). It ends in a fault if it comes
  to one whose number it does not take (`fault_of_reaches`, `reaches_of_fault`).

  A number from the first automatic one on is refused where its marker is closed, and a
  marker that is not closed is text. A number of too many digits is refused before anything
  behind it is read, so the bracket in front of it may never be closed (`read_eq_error_iff`). That is
  the one way in which a text without a closing bracket is not plain (`scan_refuses`,
  `unclosed_refused`).
-/

import Errand.Proofs.Wildcard.Nesting

namespace Errand

/-! ## Behind an opening bracket -/

/-- What stands behind an opening bracket, however long the number there is. -/
structure Opening where
  name : Text
  obfuscated : Bool
  subtype : Option Text
  digits : Text
  /-- The text behind the digits. -/
  rest : Text

namespace Opening

def ofText (t : Text) : Opening :=
  let name := Reader.smallRun (Reader.dropSpaces t)
  let mark := MarkerHead.readMark name.2
  let subtype := MarkerHead.readSubtype (Reader.dropSpaces mark.2)
  let number := Reader.dropSpaces subtype.2
  { name := name.1
    obfuscated := mark.1
    subtype := subtype.1
    digits := number.takeWhile Reader.isDigit
    rest := number.dropWhile Reader.isDigit }

/-- A wildcard begins here, and the bracket that closes it is found. -/
def IsClosed (o : Opening) : Prop := o.name ≠ [] ∧ (MarkerBody.read? o.rest).isSome

/-- A wildcard begins here, and its number has more digits than any may have. -/
def IsOverlong (o : Opening) : Prop := o.name ≠ [] ∧ MarkerHead.maxDigits < o.digits.length

/-- The number is none that may be written: it is not below the automatic ones or it has too
    many digits. -/
def HasBadNumber (o : Opening) : Prop :=
  firstAutomatic ≤ Numeral.value o.digits ∨ MarkerHead.maxDigits < o.digits.length

/-- The number that is read if it is not too long. -/
def number? (o : Opening) : Option Nat := if o.digits = [] then none else some (Numeral.value o.digits)

theorem rest_suffix (t : Text) : (ofText t).rest <:+ t :=
  (List.dropWhile_suffix _).trans ((List.dropWhile_suffix _).trans ((Marker.readSubtype_suffix _).trans
    ((List.dropWhile_suffix _).trans ((Marker.readMark_suffix _).trans ((List.dropWhile_suffix _).trans
      (List.dropWhile_suffix _))))))

/-- Without a closing bracket nothing is closed. -/
theorem not_closed {t : Text} (h : .char '\x7d' ∉ t) : ¬(ofText t).IsClosed := by
  rintro ⟨-, hbody⟩
  obtain ⟨⟨body, after⟩, hread⟩ := Option.isSome_iff_exists.mp hbody
  have hsuffix := (Marker.body_suffix hread).trans (rest_suffix t)
  exact h (hsuffix.subset List.mem_cons_self)

end Opening

theorem readNumber?_eq (t : Text) : MarkerHead.readNumber? t =
    if MarkerHead.maxDigits < (t.takeWhile Reader.isDigit).length then none
    else some (if t.takeWhile Reader.isDigit = [] then none else some (Numeral.value (t.takeWhile Reader.isDigit)),
      t.dropWhile Reader.isDigit) := by
  unfold MarkerHead.readNumber? Reader.digits?
  dsimp only
  by_cases hnone : t.takeWhile Reader.isDigit = []
  · have hall : t.dropWhile Reader.isDigit = t := by
      have happend := List.takeWhile_append_dropWhile (p := Reader.isDigit) (l := t)
      rwa [hnone, List.nil_append] at happend
    rw [hnone, hall]
    rfl
  · have hempty : (t.takeWhile Reader.isDigit).isEmpty = false := by simpa using hnone
    rw [hempty, Bool.false_or, if_neg hnone]
    by_cases hlong : MarkerHead.maxDigits < (t.takeWhile Reader.isDigit).length
    · rw [if_pos (by simpa using hlong), if_pos hlong]
      rfl
    · rw [if_neg (by simpa using hlong), if_neg hlong]

/-- The head of a marker by what stands behind its bracket. -/
theorem MarkerHead.read_eq (t : Text) : read t =
    if (Opening.ofText t).name = [] then .ok none
    else if maxDigits < (Opening.ofText t).digits.length then .error (.numberTooLong (.char '\x7b' :: t))
    else .ok (some (⟨(Opening.ofText t).name, (Opening.ofText t).obfuscated, (Opening.ofText t).subtype,
      (Opening.ofText t).number?⟩, (Opening.ofText t).rest)) := by
  have hnumber : readNumber? (Reader.dropSpaces (readSubtype (Reader.dropSpaces
      (readMark (Reader.smallRun (Reader.dropSpaces t)).2).2)).2) =
        if maxDigits < (Opening.ofText t).digits.length then none
        else some ((Opening.ofText t).number?, (Opening.ofText t).rest) := readNumber?_eq _
  rw [read, hnumber]
  have hname : (Opening.ofText t).name = (Reader.smallRun (Reader.dropSpaces t)).1 := rfl
  cases h : (Reader.smallRun (Reader.dropSpaces t)).1 with
  | nil => rw [if_pos (hname.trans h)]
  | cons c name =>
    rw [hname, h, if_neg (List.cons_ne_nil c name)]
    by_cases hlong : maxDigits < (Opening.ofText t).digits.length
    · rw [if_pos hlong, if_pos hlong]
    · rw [if_neg hlong, if_neg hlong]
      rfl

namespace Marker
variable {t : Text}

/-- A bracket that is followed by no name, or that is not closed, begins no marker as long as
    the number behind it is not too long. -/
theorem read_of_not_closed (hclosed : ¬(Opening.ofText t).IsClosed) (hlong : ¬(Opening.ofText t).IsOverlong) :
    read t = .ok none := by
  rw [read, MarkerHead.read_eq]
  by_cases hname : (Opening.ofText t).name = []
  · rw [if_pos hname]
  · have hbody : MarkerBody.read? (Opening.ofText t).rest = none :=
      Option.not_isSome_iff_eq_none.mp fun h => hclosed ⟨hname, h⟩
    rw [if_neg hname, if_neg fun h => hlong ⟨hname, h⟩]
    dsimp only
    rw [hbody]

/-- Nothing behind a number that is too long is looked at. -/
theorem read_of_overlong (h : (Opening.ofText t).IsOverlong) : read t = .error (.numberTooLong (.char '\x7b' :: t)) := by
  rw [read, MarkerHead.read_eq, if_neg h.1, if_pos h.2]

theorem read_of_closed (hclosed : (Opening.ofText t).IsClosed) (hlong : ¬(Opening.ofText t).IsOverlong) :
    (∃ f, read t = .error f) ↔ firstAutomatic ≤ Numeral.value (Opening.ofText t).digits := by
  obtain ⟨⟨body, after⟩, hbody⟩ := Option.isSome_iff_exists.mp hclosed.2
  rw [read, MarkerHead.read_eq, if_neg hclosed.1, if_neg fun h => hlong ⟨hclosed.1, h⟩]
  dsimp only
  rw [hbody, Opening.number?]
  -- no number at all is below the automatic ones like the value of no digits
  by_cases hdigits : (Opening.ofText t).digits = []
  · rw [if_pos hdigits, hdigits]
    simp [Numeral.value, firstAutomatic]
  · rw [if_neg hdigits]
    dsimp only
    by_cases hlow : firstAutomatic ≤ Numeral.value (Opening.ofText t).digits
    · rw [if_pos hlow]
      simp [hlow]
    · rw [if_neg hlow]
      simp [hlow]

/-- What is refused at a bracket: a bad number of a marker that is closed, and a number that is
    too long where no marker is. -/
theorem read_eq_error_iff : (∃ f, read t = .error f) ↔
    (Opening.ofText t).IsClosed ∧ (Opening.ofText t).HasBadNumber ∨
      ¬(Opening.ofText t).IsClosed ∧ (Opening.ofText t).IsOverlong := by
  by_cases hlong : (Opening.ofText t).IsOverlong
  · have herror : ∃ f, read t = .error f := ⟨_, read_of_overlong hlong⟩
    by_cases hclosed : (Opening.ofText t).IsClosed
    · exact iff_of_true herror (.inl ⟨hclosed, .inr hlong.2⟩)
    · exact iff_of_true herror (.inr ⟨hclosed, hlong⟩)
  · by_cases hclosed : (Opening.ofText t).IsClosed
    · have hshort : ¬MarkerHead.maxDigits < (Opening.ofText t).digits.length := fun h => hlong ⟨hclosed.1, h⟩
      rw [read_of_closed hclosed hlong, Opening.HasBadNumber]
      simp [hclosed, hshort]
    · rw [read_of_not_closed hclosed hlong]
      simp [hclosed, hlong]

end Marker

/-! ## What a scan comes to -/

/-- The texts behind the brackets at which a scan of a text asks for a marker. In a clause and
    in metadata a backslash takes the character behind it along. -/
inductive Reaches : MarkupKind → Text → Text → Prop
  | here (kind : MarkupKind) (t : Text) : Reaches kind (.char '\x7b' :: t) t
  | past {kind t u} {c : CodePoint} (hbrace : c ≠ '\x7b') (hslash : kind = .sentence ∨ c ≠ '\\') (h : Reaches kind t u) :
      Reaches kind (c :: t) u
  | pair {kind t u} {c : CodePoint} (hkind : kind ≠ .sentence) (h : Reaches kind t u) : Reaches kind (.char '\\' :: c :: t) u
  /-- A bracket that begins no marker is a character like any other. -/
  | text {kind t u} (hread : Marker.read t = .ok none) (h : Reaches kind t u) : Reaches kind (.char '\x7b' :: t) u
  | clause {kind t u m after} (hread : Marker.read t = .ok (some (m, after)))
      (h : Reaches .clause (m.clause.getD []) u) : Reaches kind (.char '\x7b' :: t) u
  | metadata {kind t u m after} (hread : Marker.read t = .ok (some (m, after)))
      (h : Reaches .metadata (m.metadata.getD []) u) : Reaches kind (.char '\x7b' :: t) u
  | behind {kind t u m after} (hread : Marker.read t = .ok (some (m, after))) (h : Reaches kind after u) :
      Reaches kind (.char '\x7b' :: t) u

namespace Markup

theorem fault?_escaped (kind : MarkupKind) (c : CodePoint) (m : Markup) : (escaped kind c m).fault? = m.fault? := by
  unfold escaped
  split
  · rfl
  · rfl

theorem read_pair {kind : MarkupKind} (hkind : kind ≠ .sentence) (place : Nat) (c : CodePoint) (t : Text) :
    read kind place (.char '\\' :: c :: t) = escaped kind c (read kind (place + 2) t) := by
  rw [read, if_neg hkind]

theorem fault_of_reaches {kind : MarkupKind} {t u : Text} (h : Reaches kind t u) {f : MarkerFault}
    (hfault : Marker.read u = .error f) (place : Nat) : (read kind place t).fault?.isSome := by
  -- along the way to the bracket: the fault there is the fault of whatever contains it
  induction h generalizing place with
  | here kind t =>
    rw [read_brace, hfault]
    rfl
  | past hbrace hslash _ ih =>
    rw [read_cons_plain hbrace hslash]
    exact ih hfault (place + 1)
  | pair hkind _ ih =>
    rw [read_pair hkind, fault?_escaped]
    exact ih hfault (place + 2)
  | text hread _ ih =>
    rw [read_brace, hread]
    exact ih hfault (place + 1)
  | clause hread _ ih =>
    rw [read_brace, hread]
    simp [fault?, ih hfault 0]
  | metadata hread _ ih =>
    rw [read_brace, hread]
    simp [fault?, ih hfault 0]
  | @behind kind t u m after hread _ ih =>
    rw [read_brace, hread]
    simp [fault?, ih hfault (place + m.text.length)]

theorem reaches_of_fault {kind : MarkupKind} {place : Nat} {t : Text} {f : MarkerFault}
    (h : (read kind place t).fault? = some f) : ∃ u, Reaches kind t u ∧ Marker.read u = .error f := by
  fun_induction read kind place t with
  | case1 => cases h
  | case2 place c rest ih =>
    obtain ⟨u, hreaches, hu⟩ := ih h
    exact ⟨u, .past (by decide) (.inl rfl) hreaches, hu⟩
  | case3 kind place c rest hkind ih =>
    rw [fault?_escaped] at h
    obtain ⟨u, hreaches, hu⟩ := ih h
    exact ⟨u, .pair hkind hreaches, hu⟩
  | case4 kind place rest f' hread _ =>
    cases h
    exact ⟨rest, .here kind rest, hread⟩
  | case5 kind place rest hread _ ih =>
    obtain ⟨u, hreaches, hu⟩ := ih h
    exact ⟨u, .text hread hreaches, hu⟩
  | case6 kind place rest m after hread _ ihc ihd ih =>
    rw [fault?, Option.or_eq_some_iff, Option.or_eq_some_iff] at h
    rcases h with h | ⟨-, h | ⟨-, h⟩⟩
    · obtain ⟨u, hreaches, hu⟩ := ihc h
      exact ⟨u, .clause hread hreaches, hu⟩
    · obtain ⟨u, hreaches, hu⟩ := ihd h
      exact ⟨u, .metadata hread hreaches, hu⟩
    · obtain ⟨u, hreaches, hu⟩ := ih h
      exact ⟨u, .behind hread hreaches, hu⟩
  | case7 kind place c rest hslash hbrace ih =>
    obtain ⟨u, hreaches, hu⟩ := ih h
    refine ⟨u, .past hbrace (.inr ?_) hreaches, hu⟩
    -- a backslash with nothing behind it is the last character
    rintro rfl
    cases rest with
    | nil => cases hreaches
    | cons d rest => exact hslash d rest rfl rfl

/-- In a text without a closing bracket nothing is read but characters, up to a number that is
    too long. -/
theorem read_unclosed {t : Text} (h : .char '\x7d' ∉ t) (place : Nat) : read .sentence place t = behind t done ∨
    ∃ front rest, read .sentence place t = behind front (fault (.numberTooLong rest)) := by
  generalize hkind : MarkupKind.sentence = kind
  fun_induction read kind place t with
  | case1 => exact .inl rfl
  | case2 place c rest ih =>
    rcases ih (List.not_mem_of_not_mem_cons h) rfl with hplain | ⟨front, rest', hfault⟩
    · exact .inl (congrArg _ hplain)
    · exact .inr ⟨.char '\\' :: front, rest', congrArg _ hfault⟩
  | case3 kind place c rest hkind' ih => exact absurd hkind.symm hkind'
  | case4 kind place rest f hread _ =>
    have hopen := Opening.not_closed (List.not_mem_of_not_mem_cons h)
    rcases Marker.read_eq_error_iff.mp ⟨f, hread⟩ with ⟨hclosed, -⟩ | ⟨-, hlong⟩
    · exact absurd hclosed hopen
    · cases hread.symm.trans (Marker.read_of_overlong hlong)
      exact .inr ⟨[], _, rfl⟩
  | case5 kind place rest _ _ ih =>
    rcases ih (List.not_mem_of_not_mem_cons h) hkind with hplain | ⟨front, rest', hfault⟩
    · exact .inl (congrArg _ hplain)
    · exact .inr ⟨.char '\x7b' :: front, rest', congrArg _ hfault⟩
  | case6 kind place rest m after hread _ _ _ _ =>
    exact absurd ((Marker.read_suffix hread).subset List.mem_cons_self) (List.not_mem_of_not_mem_cons h)
  | case7 kind place c rest _ _ ih =>
    rcases ih (List.not_mem_of_not_mem_cons h) hkind with hplain | ⟨front, rest', hfault⟩
    · exact .inl (congrArg _ hplain)
    · exact .inr ⟨c :: front, rest', congrArg _ hfault⟩

end Markup

/-- A scan ends in a fault at a number that is refused, and at no other. -/
theorem scan_fault_iff (t : Text) (n : Int) : (∃ f n', (scan t).run n = (.error f, n')) ↔
    ∃ u, Reaches .sentence t u ∧ ∃ f, Marker.read u = .error f := by
  constructor
  · rintro ⟨f, n', hrun⟩
    have haccounts := run_number (Markup.read .sentence 0 t) false n
    rw [scan] at hrun
    rw [hrun] at haccounts
    obtain ⟨u, hreaches, hu⟩ := Markup.reaches_of_fault haccounts.1
    exact ⟨u, hreaches, f, hu⟩
  · rintro ⟨u, hreaches, f, hu⟩
    have hfault := Markup.fault_of_reaches hreaches hu 0
    rcases hrun : (scan t).run n with ⟨f' | found, n'⟩
    · exact ⟨f', n', rfl⟩
    · rw [Markup.faultless_of_run hrun] at hfault
      cases hfault

/-- A text without a closing bracket comes out as it went in and takes no number, up to a
    number that is too long. -/
theorem scan_unclosed {t : Text} (h : .char '\x7d' ∉ t) (n : Int) : (scan t).run n = (.ok ⟨t, [], []⟩, n) ∨
    ∃ rest, (scan t).run n = (.error (.numberTooLong rest), n) := by
  rw [scan]
  rcases Markup.read_unclosed h 0 with hplain | ⟨front, rest, hfault⟩
  · rw [hplain]
    exact .inl (Markup.run_plain t false n)
  · rw [hfault, Markup.run_behind]
    exact .inr ⟨rest, rfl⟩

/-- Where no closing bracket is, none is in what a scan comes to. -/
theorem Reaches.unclosed {kind : MarkupKind} {t u : Text} (h : Reaches kind t u) (ht : .char '\x7d' ∉ t) :
    .char '\x7d' ∉ u := by
  induction h with
  | here => exact List.not_mem_of_not_mem_cons ht
  | past _ _ _ ih => exact ih (List.not_mem_of_not_mem_cons ht)
  | pair _ _ ih => exact ih (List.not_mem_of_not_mem_cons (List.not_mem_of_not_mem_cons ht))
  | text _ _ ih => exact ih (List.not_mem_of_not_mem_cons ht)
  | clause hread | metadata hread | behind hread =>
    exact absurd ((Marker.read_suffix hread).subset List.mem_cons_self) (List.not_mem_of_not_mem_cons ht)

/-- A scan comes to a number that is too long where no marker is closed. -/
def HasStrayNumber (t : Text) : Prop :=
  ∃ u, Reaches .sentence t u ∧ ¬(Opening.ofText u).IsClosed ∧ (Opening.ofText u).IsOverlong

/-- A text is refused if the scan comes to a marker that is closed and has a bad number, and
    otherwise only for a stray number. Without a closing bracket it is plain text and takes no
    number, up to a stray number. -/
theorem scan_refuses (t : Text) (n : Int) :
    ((∃ f n', (scan t).run n = (.error f, n')) ↔
      (∃ u, Reaches .sentence t u ∧ (Opening.ofText u).IsClosed ∧ (Opening.ofText u).HasBadNumber) ∨ HasStrayNumber t) ∧
    (.char '\x7d' ∉ t →
      ¬HasStrayNumber t ∧ (scan t).run n = (.ok ⟨t, [], []⟩, n) ∨
      HasStrayNumber t ∧ ∃ rest, (scan t).run n = (.error (.numberTooLong rest), n)) := by
  have hfault : (∃ f n', (scan t).run n = (.error f, n')) ↔
      (∃ u, Reaches .sentence t u ∧ (Opening.ofText u).IsClosed ∧ (Opening.ofText u).HasBadNumber) ∨ HasStrayNumber t := by
    rw [scan_fault_iff, HasStrayNumber, ← exists_or]
    refine exists_congr fun u => ?_
    rw [Marker.read_eq_error_iff, and_or_left]
  refine ⟨hfault, fun hunclosed => ?_⟩
  rcases scan_unclosed hunclosed n with hplain | ⟨rest, hlong⟩
  · refine .inl ⟨fun hstray => ?_, hplain⟩
    obtain ⟨f, n', hrun⟩ := hfault.mpr (.inr hstray)
    cases hplain.symm.trans hrun
  · rcases hfault.mp ⟨_, _, hlong⟩ with ⟨u, hreaches, hclosed, -⟩ | hstray
    · exact absurd hclosed (Opening.not_closed (hreaches.unclosed hunclosed))
    · exact .inr ⟨hstray, rest, hlong⟩

/-- Two brackets, a quote and a number of five digits, and nothing that closes. -/
def ajar : Text := "\x7bobject? big 12345 where name = 'a \x7broom".text

theorem scan_refuses_ajar : .char '\x7d' ∉ ajar ∧ (scan ajar).run 1000 = (.ok ⟨ajar, [], []⟩, 1000) := by
  have hunclosed : .char '\x7d' ∉ ajar := by decide
  have hread : ((scan ajar).run 1000).1.isOk = true := by decide +kernel
  refine ⟨hunclosed, ?_⟩
  rcases (scan_refuses ajar 1000).2 hunclosed with ⟨-, hplain⟩ | ⟨-, rest, hrun⟩
  · exact hplain
  · rw [hrun] at hread
    cases hread

/-- A text without a closing bracket that is refused: the number is too long before the bracket
    in front of it can turn out to be open. -/
theorem unclosed_refused :
    ¬((∃ f n', (scan "\x7bobject 123456".text).run 1000 = (.error f, n')) ↔
      ∃ u, Reaches .sentence "\x7bobject 123456".text u ∧ (Opening.ofText u).IsClosed ∧ (Opening.ofText u).HasBadNumber) ∧
    .char '\x7d' ∉ "\x7bobject 123456".text := by
  have hunclosed : .char '\x7d' ∉ "\x7bobject 123456".text := by decide
  refine ⟨fun hclaim => ?_, hunclosed⟩
  have hlong : (Opening.ofText "object 123456".text).IsOverlong := ⟨by decide, by decide⟩
  obtain ⟨u, hreaches, hclosed, -⟩ := hclaim.mp
    ((scan_fault_iff _ _).mpr ⟨_, .here .sentence "object 123456".text, _, Marker.read_of_overlong hlong⟩)
  exact Opening.not_closed (hreaches.unclosed hunclosed) hclosed

end Errand
