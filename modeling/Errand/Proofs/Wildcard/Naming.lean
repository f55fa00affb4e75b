/-
  Errand.Proofs.Wildcard.Naming — where the names of markers stand.

  A marker has a name of its own, and its clause and metadata may have markers with names in
  them (`Markup.named`). With a question mark behind any of these names the marker is still
  one: it ends where it ended and is of the same name, subtype and number (`Marker.Alike`). Its
  clause or its metadata have the question mark in them if the name stands there
  (`read_here`, `read_in_clause`, `read_in_metadata`).
-/

import Errand.Proofs.Wildcard.Insertion

namespace Errand
open Errand.Bracket (inFront)
open Reader (isSmall isSpace dropSpaces)

/-! ## Places in a marker -/

namespace Marker

/-- The number of characters up to the end of the name. -/
def nameStop (m : Marker) : Nat := 1 + ((m.text.drop 1).takeWhile isSpace).length + m.name.length

/-- The marker from the first character of its clause on. -/
def fromClause (m : Marker) : Text :=
  match MarkerHead.read (m.text.drop 1) with
  | .ok (some (_, afterHead)) => ((Reader.keyword? "where".text (dropSpaces afterHead)).getD []).dropWhile Text.isBlank
  | _ => []

/-- The number of characters in front of the clause. -/
def clauseStart (m : Marker) : Nat := m.text.length - m.fromClause.length

/-- The number of characters in front of the metadata, which reach to the last bracket. -/
def metadataStart (m : Marker) : Nat := m.text.length - 1 - (m.metadata.getD []).length

/-- Markers that differ in nothing but what their clauses and metadata are, in the question
    mark and in their text. -/
structure Alike (m m' : Marker) : Prop where
  name : m'.name = m.name
  subtype : m'.subtype = m.subtype
  number : m'.number = m.number
  clause : m'.clause.isSome = m.clause.isSome
  metadata : m'.metadata.isSome = m.metadata.isSome

theorem Alike.refl (m : Marker) : m.Alike m := ⟨rfl, rfl, rfl, rfl, rfl⟩

/-- Behind the bracket a marker is read from `t`. With a question mark `k` characters from that
    bracket, where the name of `n` ends, a marker like it is read, with this clause and this metadata. -/
def Questioned (m : Marker) (t after : Text) (n : Marker) (k : Nat) (clause metadata : Option Text) : Prop :=
  ∃ z v m', t = z ++ v ∧ after.length < v.length ∧ k = z.length + 1 ∧ NameEnd n (.char '\x7b' :: z) v ∧
    read (z ++ .char '?' :: v) = .ok (some (m', after)) ∧ m.Alike m' ∧ m'.clause = clause ∧ m'.metadata = metadata

variable {t after z v : Text} {m n : Marker}

/-- The marker and what follows it are the text behind the bracket. -/
theorem length_of_read (h : read t = .ok (some (m, after))) : m.text.length + after.length = t.length + 1 := by
  have htext := congrArg List.length (text_of_read h).2
  rw [List.length_append, List.length_cons] at htext
  exact htext.symm

/-- A marker is made of a head and a body. -/
theorem parts_of_read (h : read t = .ok (some (m, after))) : ∃ afterHead,
    MarkerHead.read t = .ok (some (m.toMarkerHead, afterHead)) ∧
      MarkerBody.read? afterHead = some (m.toMarkerBody, after) ∧ ∀ n ∈ m.number, n < firstAutomatic := by
  obtain ⟨head, afterHead, body, hhead, hbody, hnumber, rfl⟩ := read_eq_ok_iff.mp h
  exact ⟨afterHead, hhead, hbody, hnumber⟩

theorem read_of_parts {head : MarkerHead} {body : MarkerBody} {afterHead : Text}
    (hhead : MarkerHead.read t = .ok (some (head, afterHead))) (hbody : MarkerBody.read? afterHead = some (body, after))
    (hnumber : ∀ n ∈ head.number, n < firstAutomatic) : ∃ text, read t = .ok (some (⟨head, body, text⟩, after)) :=
  ⟨_, read_eq_ok_iff.mpr ⟨head, afterHead, body, hhead, hbody, hnumber, rfl⟩⟩

/-! ## Its own name -/

theorem takeWhile_spaces (h : read t = .ok (some (m, after))) : (m.text.drop 1).takeWhile isSpace = t.takeWhile isSpace := by
  obtain ⟨inside, hinside⟩ := (text_of_read h).1
  have htext := (text_of_read h).2
  rw [hinside, List.cons_append, List.cons.injEq] at htext
  have hclose : ∀ u : Text, ∀ c ∈ (.char '\x7d' :: u : Text).head?, isSpace c = false := by
    rintro u c ⟨⟩
    decide
  rw [hinside, List.drop_one, List.tail_cons, htext.2, List.append_assoc, List.singleton_append,
    Text.takeWhile_append_of_head (hclose []), Text.takeWhile_append_of_head (hclose after)]

/-- A head is put together from what its readers find, one behind the other. -/
theorem head_eq_ok_iff {head : MarkerHead} {afterHead : Text} : MarkerHead.read t = .ok (some (head, afterHead)) ↔
    ∃ name v, Reader.smallRun (dropSpaces t) = (name, v) ∧ name ≠ [] ∧ ∃ subtype,
      MarkerHead.readSubtype (dropSpaces (MarkerHead.readMark v).2) = subtype ∧ ∃ number,
      MarkerHead.readNumber? (dropSpaces subtype.2) = some (number, afterHead) ∧
      head = ⟨name, (MarkerHead.readMark v).1, subtype.1, number⟩ := by
  rw [MarkerHead.read]
  rcases Reader.smallRun (dropSpaces t) with ⟨_ | ⟨c, name⟩, v⟩
  · constructor
    · intro h
      cases h
    · rintro ⟨name, v, hrun, hne, -⟩
      cases hrun
      exact absurd rfl hne
  dsimp only
  rcases hnumber : MarkerHead.readNumber? (dropSpaces (MarkerHead.readSubtype (dropSpaces (MarkerHead.readMark v).2)).2)
    with _ | ⟨number, after⟩
  · constructor
    · intro h
      cases h
    · rintro ⟨name, v, hrun, -, subtype, rfl, number, hnumber', -⟩
      cases hrun
      rw [hnumber] at hnumber'
      cases hnumber'
  · constructor
    · intro h
      cases h
      exact ⟨_, _, rfl, List.cons_ne_nil _ _, _, rfl, _, hnumber, rfl⟩
    · rintro ⟨name, v, hrun, -, subtype, rfl, number, hnumber', rfl⟩
      cases hrun
      rw [hnumber] at hnumber'
      cases hnumber'
      rfl

/-- A name ends where the small letters end. -/
theorem smallRun_behind_spaces {spaces name u : Text} (hspaces : ∀ c ∈ spaces, isSpace c = true) (hne : name ≠ [])
    (hsmall : ∀ c ∈ name, isSmall c = true) (hu : ∀ c ∈ u.head?, isSmall c = false) :
    Reader.smallRun (dropSpaces (spaces ++ name ++ u)) = (name, u) := by
  have hletter : ∀ c ∈ (name ++ u).head?, isSpace c = false := by
    obtain ⟨c, letters, rfl⟩ := List.exists_cons_of_ne_nil hne
    rintro d ⟨⟩
    exact Reader.not_space_of_small (hsmall _ List.mem_cons_self)
  rw [List.append_assoc, dropSpaces, Text.dropWhile_run hspaces hletter, Reader.smallRun, Text.takeWhile_run hsmall hu,
    Text.dropWhile_run hsmall hu]

/-- With a question mark behind the name the head is that of an obfuscated wildcard. -/
theorem head_question {head : MarkerHead} {afterHead : Text} (h : MarkerHead.read t = .ok (some (head, afterHead)))
    (hplain : head.obfuscated = false) : ∃ v, t = t.takeWhile isSpace ++ head.name ++ v ∧ head.name ≠ [] ∧
      (∀ c ∈ head.name, isSmall c = true) ∧ (∀ c ∈ v.head?, isSmall c = false) ∧
      afterHead <:+ dropSpaces v ∧ (∀ w, dropSpaces v = .char ':' :: w → afterHead = .char ':' :: w) ∧
      MarkerHead.read (t.takeWhile isSpace ++ head.name ++ .char '?' :: v) =
        .ok (some ({ head with obfuscated := true }, afterHead)) := by
  obtain ⟨name, v, hrun, hne, subtype, hsubtype, number, hnumber, rfl⟩ := head_eq_ok_iff.mp h
  have hmark : MarkerHead.readMark v = (false, v) := by
    rw [MarkerHead.readMark] at hplain ⊢
    split at hplain
    · cases hplain
    · rfl
  rw [hmark] at hsubtype ⊢
  obtain ⟨rfl, rfl⟩ := Prod.mk.inj hrun
  have hsmall : ∀ c ∈ (dropSpaces t).takeWhile isSmall, isSmall c = true := fun c hc => List.mem_takeWhile_imp hc
  have hhead := Text.head_dropWhile isSmall (dropSpaces t)
  have htext : t = t.takeWhile isSpace ++ (dropSpaces t).takeWhile isSmall ++ (dropSpaces t).dropWhile isSmall := by
    rw [List.append_assoc, List.takeWhile_append_dropWhile, dropSpaces, List.takeWhile_append_dropWhile]
  generalize (dropSpaces t).takeWhile isSmall = name at *
  generalize (dropSpaces t).dropWhile isSmall = v at *
  refine ⟨v, htext, hne, hsmall, hhead, ?_, ?_, ?_⟩
  · have hbehind := readNumber?_suffix hnumber
    rw [← hsubtype] at hbehind
    exact hbehind.trans ((List.dropWhile_suffix _).trans (readSubtype_suffix _))
  · intro w hw
    rw [hw] at hsubtype
    have hcolon : subtype = (none, .char ':' :: w) := hsubtype.symm
    rw [hcolon] at hnumber
    have hnone : MarkerHead.readNumber? (dropSpaces (.char ':' :: w)) = some (none, .char ':' :: w) := rfl
    rw [hnone] at hnumber
    cases hnumber
    rfl
  · have hquestion : ∀ c ∈ (.char '?' :: v : Text).head?, isSmall c = false := by
      rintro c ⟨⟩
      decide
    have hspaces : ∀ c ∈ t.takeWhile isSpace, isSpace c = true := fun c hc => List.mem_takeWhile_imp hc
    have hrun' := smallRun_behind_spaces hspaces hne hsmall hquestion
    exact head_eq_ok_iff.mpr ⟨name, _, hrun', hne, subtype, hsubtype, number, hnumber, rfl⟩

/-- A body that begins with a colon ends as a bracket before that colon would be closed. -/
theorem closed_of_colon {w : Text} {body : MarkerBody} (h : MarkerBody.read? (.char ':' :: w) = some (body, after)) :
    (Bracket.closing? .curly w).isSome = true := by
  have hclause : MarkerBody.readClause? (dropSpaces (.char ':' :: w)) = some (none, .char ':' :: w) := rfl
  rw [MarkerBody.read?_eq, hclause] at h
  obtain ⟨⟨metadata, after'⟩, hrest, -⟩ := Option.map_eq_some_iff.mp h
  have hnone : metadataMark? (dropSpaces (.char ':' :: w)) = none := rfl
  rw [MarkerBody.readRest?, hnone] at hrest
  obtain ⟨⟨inside, after'⟩, hclosing, -⟩ := Option.map_eq_some_iff.mp hrest
  have hcolon : Bracket.closing? .curly (.char ':' :: w) = inFront [.char ':'] (Bracket.closing? .curly w) :=
    closingFrom_plain (by decide) (by decide) (by decide) 0 w
  have hclosing' : Bracket.closing? .curly (.char ':' :: w) = some (inside, after') := hclosing
  rw [hcolon] at hclosing'
  obtain ⟨found, hfound, -⟩ := Option.map_eq_some_iff.mp hclosing'
  rw [hfound]
  rfl

/-- The marker with the question mark behind its own name. -/
theorem read_here (h : read t = .ok (some (m, after))) (hplain : m.obfuscated = false) :
    m.Questioned t after m m.nameStop m.clause m.metadata := by
  obtain ⟨afterHead, hhead, hbody, hnumber⟩ := parts_of_read h
  obtain ⟨v, htext, hne, hsmall, hv, hsuffix, hcolon, hquestion⟩ := head_question hhead hplain
  obtain ⟨text, hread⟩ := read_of_parts hquestion hbody hnumber
  have hdropped : dropSpaces v ≠ [] := by
    intro hnil
    rw [hnil] at hsuffix
    have hbracket := (body_suffix hbody).trans hsuffix
    cases List.suffix_nil.mp hbracket
  have hplace : NameEnd m (.char '\x7b' :: (t.takeWhile isSpace ++ m.name)) v := by
    have hprefix : m.text <+: .char '\x7b' :: (t.takeWhile isSpace ++ m.name ++ v) := by
      rw [← htext]
      exact ⟨after, (text_of_read h).2.symm⟩
    refine ⟨⟨[], t.takeWhile isSpace, rfl, fun c hc => List.mem_takeWhile_imp hc, hprefix⟩, hne, hsmall, ?_, ?_⟩
    · rcases v with _ | ⟨c, w⟩
      · exact absurd rfl hdropped
      · exact ⟨c, w, rfl, hv c rfl⟩
    · obtain ⟨c, w, hw⟩ := List.exists_cons_of_ne_nil hdropped
      refine ⟨c, w, hw, ?_⟩
      rintro rfl
      rw [hcolon w hw] at hbody
      exact closed_of_colon hbody
  refine ⟨t.takeWhile isSpace ++ m.name, v, _, htext, ?_, ?_, hplace, hread, ⟨rfl, rfl, rfl, rfl, rfl⟩, rfl, rfl⟩
  · have hshorter := ((body_suffix hbody).trans (hsuffix.trans (List.dropWhile_suffix isSpace))).length_le
    rw [List.length_cons] at hshorter
    omega
  · rw [nameStop, takeWhile_spaces h, List.length_append]
    omega

/-! ## Names in the clause and in the metadata -/

/-- The head in front of a name is read as before. -/
theorem head_in_front {front y : Text} {head : MarkerHead} (hname : NameEnd n y v)
    (h : MarkerHead.read (front ++ (y ++ v)) = .ok (some (head, y ++ v))) :
    MarkerHead.read (front ++ (y ++ .char '?' :: v)) = .ok (some (head, y ++ .char '?' :: v)) := by
  obtain ⟨x, s, rfl, -⟩ := hname.cut
  rw [List.append_assoc, List.cons_append, ← List.append_assoc] at h ⊢
  obtain ⟨a, ha, hquestion⟩ := MarkerHead.read_local (atBracket_open _) (atBracket_open (s ++ .char '?' :: v)) h
  rw [hquestion, ← List.append_cancel_right ha]

/-- The text from the clause on is the end of the marker and what follows that. -/
theorem fromClause_append {head : MarkerHead} {afterHead r : Text} (h : read t = .ok (some (m, after)))
    (hhead : MarkerHead.read t = .ok (some (head, afterHead)))
    (hword : Reader.keyword? "where".text (dropSpaces afterHead) = some r) :
    m.fromClause ++ after = r.dropWhile Text.isBlank := by
  obtain ⟨inside, hinside⟩ := (text_of_read h).1
  have htext := (text_of_read h).2
  rw [hinside, List.cons_append, List.cons.injEq, List.append_assoc, List.singleton_append] at htext
  have hblank : ∀ u : Text, ∀ c ∈ (.char '\x7d' :: u : Text).head?, Text.isBlank c = false := by
    rintro u c ⟨⟩
    decide
  rw [htext.2] at hhead
  obtain ⟨a, rfl, hhead'⟩ := MarkerHead.read_local (atBracket_close _) (atBracket_close []) hhead
  rw [Reader.dropSpaces_append (atBracket_close _), Reader.keyword?_append (atBracket_close _) (by decide)] at hword
  obtain ⟨b, hb, rfl⟩ := Option.map_eq_some_iff.mp hword
  rw [fromClause, hinside, List.drop_one, List.tail_cons, hhead']
  dsimp only
  rw [Reader.dropSpaces_append (atBracket_close _), Reader.keyword?_append (atBracket_close _) (by decide), hb,
    Option.map_some, Option.getD_some, Text.dropWhile_append_of_head (hblank _), Text.dropWhile_append_of_head (hblank _),
    List.append_assoc]
  rfl

/-- What does not begin or end with a blank does so with a question mark inside, too. -/
theorem trimmed_question (hz : z ≠ []) (hv : v ≠ []) (h : Text.Trimmed (z ++ v)) : Text.Trimmed (z ++ .char '?' :: v) := by
  obtain ⟨c, z, rfl⟩ := List.exists_cons_of_ne_nil hz
  obtain ⟨d, v, rfl⟩ := List.exists_cons_of_ne_nil hv
  refine ⟨h.1, ?_⟩
  intro e he
  apply h.2
  rw [List.getLast?_append] at he ⊢
  exact he

/-- A clause that goes over the name ends where it ended. -/
theorem clauseFrom_inside {left right rest : Text} (hname : NameEnd n z v)
    (h : clauseFrom none 0 'e' (left ++ z ++ (v ++ (right ++ rest))) = some (left ++ z ++ (v ++ right), rest)) :
    clauseFrom none 0 'e' (left ++ z ++ .char '?' :: (v ++ (right ++ rest))) =
      some (left ++ z ++ .char '?' :: (v ++ right), rest) := by
  have hplace := (hname.before (right ++ rest)).behind left
  have hquestion := @clauseFrom_question _ (v ++ (right ++ rest)) hplace.endsSmall hplace.head_not_small none
    (fun q hq => nomatch hq) 0 'e'
  rw [h] at hquestion
  rcases hquestion with hagree | ⟨clause, hz, -, ho⟩
  · exact hagree.of_length (List.append_ne_nil_of_left_ne_nil hname.ne_nil_behind right)
  · -- the clause goes over the name, so it does not end in front of it
    have hlength := congrArg List.length hz
    rw [Option.some.injEq, Prod.mk.injEq] at ho
    rw [← ho.1] at hlength
    simp only [List.length_append] at hlength
    have hpos := List.length_pos_of_ne_nil hname.ne_nil_behind
    omega

/-- A clause with the question mark behind a name in it. -/
theorem readClause?_inside (hname : NameEnd n z v) {afterClause : Text}
    (h : MarkerBody.readClause? t = some (some (z ++ v), afterClause)) :
    ∃ left back, t = "where".text ++ (left ++ z ++ (v ++ back)) ∧ afterClause.length ≤ back.length ∧
      Reader.keyword? "where".text t = some (left ++ z ++ (v ++ back)) ∧
      (left ++ z ++ (v ++ back)).dropWhile Text.isBlank = z ++ (v ++ back) ∧
      MarkerBody.readClause? ("where".text ++ (left ++ z ++ .char '?' :: (v ++ back))) =
        some (some (z ++ .char '?' :: v), afterClause) := by
  rcases MarkerBody.readClause?_cases h with ⟨-, hnone, -⟩ | ⟨r, c, hword, hclause, htrim⟩
  · cases hnone
  have htrim := (Option.some.inj htrim).symm
  have htrimmed : Text.Trimmed (z ++ v) := htrim ▸ Text.trim_trimmed c
  obtain ⟨left, right, hc, hleft, hright⟩ := Text.exists_trim c
  have hr : r = left ++ z ++ (v ++ (right ++ afterClause)) := by
    rw [clauseFrom_eq hclause, hc, htrim]
    simp only [List.append_assoc]
  have hc' : c = left ++ z ++ (v ++ right) := by
    rw [hc, htrim]
    simp only [List.append_assoc]
  obtain ⟨htext, hend⟩ := Reader.keyword?_eq_some_iff.mp hword
  rw [hr] at htext hend
  refine ⟨left, right ++ afterClause, htext, (List.suffix_append _ _).length_le, hr ▸ hword, ?_, ?_⟩
  · obtain ⟨d, z', hz⟩ := List.exists_cons_of_ne_nil hname.ne_nil
    have hhead : ∀ c ∈ (z ++ (v ++ (right ++ afterClause))).head?, Text.isBlank c = false := by
      rw [hz] at htrimmed ⊢
      exact htrimmed.1
    rw [List.append_assoc, List.dropWhile_append_of_pos hleft, Text.dropWhile_of_head hhead]
  · have hword' : Reader.keyword? "where".text ("where".text ++ (left ++ z ++ .char '?' :: (v ++ (right ++ afterClause)))) =
        some (left ++ z ++ .char '?' :: (v ++ (right ++ afterClause))) := by
      refine Reader.keyword?_eq_some_iff.mpr ⟨rfl, ?_⟩
      obtain ⟨d, x, hx⟩ := List.exists_cons_of_ne_nil (List.append_ne_nil_of_right_ne_nil left hname.ne_nil)
      rw [hx] at hend ⊢
      exact hend
    have htrim' := Text.trim_append hleft (trimmed_question hname.ne_nil hname.ne_nil_behind htrimmed) hright
    have hshape : left ++ z ++ .char '?' :: (v ++ right) = left ++ (z ++ .char '?' :: v) ++ right := by
      simp only [List.append_assoc, List.cons_append]
    rw [hr, hc'] at hclause
    rw [MarkerBody.readClause?, hword']
    dsimp only
    rw [clauseFrom_inside hname hclause, Option.map_some, hshape, htrim']

/-- The marker with the question mark behind a name in its clause. -/
theorem read_in_clause (h : read t = .ok (some (m, after))) (hname : NameEnd n z v) (hclause : m.clause = some (z ++ v)) :
    m.Questioned t after n (m.clauseStart + z.length) (some (z ++ .char '?' :: v)) m.metadata := by
  obtain ⟨afterHead, hhead, hbody, hnumber⟩ := parts_of_read h
  obtain ⟨afterClause, hread, hrest⟩ := MarkerBody.read?_eq_some_iff.mp hbody
  rw [hclause] at hread
  obtain ⟨left, back, htext, hback, hword, hblank, hquestion⟩ := readClause?_inside hname hread
  have hfrom := fromClause_append h hhead hword
  rw [hblank] at hfrom
  obtain ⟨x, hx⟩ := head_suffix hhead
  have hafterHead : afterHead = afterHead.takeWhile isSpace ++ ("where".text ++ (left ++ z)) ++ (v ++ back) := by
    have hsplit := (List.takeWhile_append_dropWhile (p := isSpace) (l := afterHead)).symm
    rw [← dropSpaces, htext] at hsplit
    simpa only [List.append_assoc] using hsplit
  have hspaces : ∀ c ∈ afterHead.takeWhile isSpace, isSpace c = true := fun c hc => List.mem_takeWhile_imp hc
  generalize afterHead.takeWhile isSpace = spaces at hafterHead hspaces
  have hplace : NameEnd n (spaces ++ ("where".text ++ (left ++ z))) (v ++ back) := by
    have hbehind := (hname.before back).behind (spaces ++ ("where".text ++ left))
    simpa only [List.append_assoc] using hbehind
  subst hafterHead
  subst hx
  have hhead' := head_in_front hplace hhead
  have hbody' : MarkerBody.read? (spaces ++ ("where".text ++ (left ++ z)) ++ .char '?' :: (v ++ back)) =
      some (⟨some (z ++ .char '?' :: v), m.metadata⟩, after) := by
    refine MarkerBody.read?_eq_some_iff.mpr ⟨afterClause, ?_, hrest⟩
    rw [List.append_assoc, dropSpaces, List.dropWhile_append_of_pos hspaces, List.append_assoc]
    exact hquestion
  obtain ⟨text, hread'⟩ := read_of_parts hhead' hbody' hnumber
  rw [← List.append_assoc] at hread'
  refine ⟨x ++ (spaces ++ ("where".text ++ (left ++ z))), v ++ back, _, (List.append_assoc _ _ _).symm, ?_, ?_,
    hplace.behind (.char '\x7b' :: x), hread', ⟨rfl, rfl, rfl, by rw [hclause]; rfl, rfl⟩, rfl, rfl⟩
  · have hshorter := MarkerBody.readRest?_length hrest
    have hdropped := Reader.length_dropWhile_le isSpace afterClause
    rw [dropSpaces] at hshorter
    rw [List.length_append]
    omega
  · have hlength := length_of_read h
    have hfrom' := congrArg List.length hfrom
    simp only [List.length_append] at hlength hfrom' ⊢
    rw [clauseStart]
    omega

/-- The clause in front of a name that stands in the metadata. -/
theorem readClause?_in_front {y a : Text} {clause : Option Text} (hname : NameEnd n y v) (ha : .char '\x7b' ∈ a)
    (h : MarkerBody.readClause? (dropSpaces (y ++ v)) = some (clause, a ++ v)) :
    MarkerBody.readClause? (dropSpaces (y ++ .char '?' :: v)) = some (clause, a ++ .char '?' :: v) := by
  obtain ⟨front, s, rfl, hcut⟩ := hname.cut
  rw [List.append_assoc, List.cons_append, MarkerBody.readClause?_append] at h ⊢
  rcases hword : Reader.keyword? "where".text (dropSpaces front) with _ | r
  · rw [hword] at h
    rw [Option.some.injEq, Prod.mk.injEq, ← List.cons_append, ← List.append_assoc] at h
    obtain ⟨rfl, ha'⟩ := h
    rw [← List.append_cancel_right ha', List.append_assoc]
    rfl
  · rw [hword] at h
    obtain ⟨⟨c, after'⟩, hclause, he⟩ := Option.map_eq_some_iff.mp h
    obtain ⟨rfl, rfl⟩ := Prod.mk.inj he
    have hplace := hcut r
    have hquestion := @clauseFrom_question _ v hplace.endsSmall hplace.head_not_small none (fun q hq => nomatch hq) 0 'e'
    have htext := clauseFrom_eq hclause
    rw [List.append_assoc, List.append_assoc, List.cons_append, List.cons_append, hclause] at hquestion
    rcases hquestion with hagree | ⟨clause, -, -, ho⟩
    · have hne : a ≠ [] := List.ne_nil_of_mem ha
      rw [← List.cons_append, ← List.append_assoc] at htext
      dsimp only
      rw [hagree.of_append htext hne]
      rfl
    · -- there is no bracket in the word that metadata begin with
      rw [Option.some.injEq, Prod.mk.injEq] at ho
      rw [List.append_cancel_right ho.2] at ha
      exact absurd ha (by decide)

/-- Metadata with the question mark behind a name in them. -/
theorem readRest?_inside (hname : NameEnd n z v) (h : MarkerBody.readRest? t = some (some (z ++ v), after)) :
    ∃ mark, t = mark ++ z ++ (v ++ .char '\x7d' :: after) ∧ (∀ u, dropSpaces (mark ++ u) = mark ++ u) ∧
      MarkerBody.readRest? (mark ++ z ++ .char '?' :: (v ++ .char '\x7d' :: after)) =
        some (some (z ++ .char '?' :: v), after) := by
  unfold MarkerBody.readRest? at h
  split at h
  · rename_i inside hmark
    obtain ⟨⟨metadata, after'⟩, hclosing, he⟩ := Option.map_eq_some_iff.mp h
    obtain ⟨hmetadata, rfl⟩ := Prod.mk.inj he
    have hmetadata := Option.some.inj hmetadata
    obtain ⟨mark, rfl, hmark'⟩ := exists_of_metadataMark? hmark
    have hinside := Bracket.closing?_eq hclosing
    have hinside' : inside = z ++ (v ++ .char '\x7d' :: after') := by
      rw [hinside, hmetadata, List.append_assoc]
      rfl
    refine ⟨mark, by rw [hinside', List.append_assoc], dropSpaces_append_of_mark hmark', ?_⟩
    have hslash : ∀ c ∈ z.getLast?, c ≠ '\\' := fun c hc => Reader.ne_of_class (hname.endsSmall c hc) (by decide)
    have hagree := closingFrom_question hslash (v ++ .char '\x7d' :: after') 0
    rw [← hinside', ← Bracket.closing?, ← Bracket.closing?, hclosing, hmetadata] at hagree
    have hquestion := hagree.of_length hname.ne_nil_behind
    rw [MarkerBody.readRest?, List.append_assoc, metadataMark?_append_of_some hmark', List.nil_append]
    dsimp only
    rw [hquestion]
    rfl
  · obtain ⟨_, -, he⟩ := Option.map_eq_some_iff.mp h
    cases he

/-- The marker with the question mark behind a name in its metadata. -/
theorem read_in_metadata (h : read t = .ok (some (m, after))) (hname : NameEnd n z v)
    (hmetadata : m.metadata = some (z ++ v)) :
    m.Questioned t after n (m.metadataStart + z.length) m.clause (some (z ++ .char '?' :: v)) := by
  obtain ⟨afterHead, hhead, hbody, hnumber⟩ := parts_of_read h
  obtain ⟨afterClause, hclause, hrest⟩ := MarkerBody.read?_eq_some_iff.mp hbody
  rw [hmetadata] at hrest
  obtain ⟨mark, htext, hdropped, hquestion⟩ := readRest?_inside hname hrest
  have hspaces : ∀ c ∈ afterClause.takeWhile isSpace, isSpace c = true := fun c hc => List.mem_takeWhile_imp hc
  have hafterClause : afterClause = afterClause.takeWhile isSpace ++ (mark ++ z) ++ (v ++ .char '\x7d' :: after) := by
    rw [List.append_assoc, ← htext, dropSpaces, List.takeWhile_append_dropWhile]
  generalize afterClause.takeWhile isSpace = spaces at hafterClause hspaces
  obtain ⟨w, hw⟩ := (readClause?_suffix hclause).trans (List.dropWhile_suffix (p := isSpace) (l := afterHead))
  obtain ⟨x, hx⟩ := head_suffix hhead
  have hplace : NameEnd n (spaces ++ (mark ++ z)) (v ++ .char '\x7d' :: after) := by
    have hbehind := (hname.before (.char '\x7d' :: after)).behind (spaces ++ mark)
    rwa [List.append_assoc] at hbehind
  have hplace' := hplace.behind w
  have hopen : .char '\x7b' ∈ spaces ++ (mark ++ z) := by
    obtain ⟨front, s, hz, -⟩ := hname.cut
    simp [hz]
  rw [← hw, hafterClause, ← List.append_assoc] at hclause
  have hclause' := readClause?_in_front hplace' hopen hclause
  have hbody' : MarkerBody.read? (w ++ (spaces ++ (mark ++ z)) ++ .char '?' :: (v ++ .char '\x7d' :: after)) =
      some (⟨m.clause, some (z ++ .char '?' :: v)⟩, after) := by
    refine MarkerBody.read?_eq_some_iff.mpr ⟨_, hclause', ?_⟩
    have hdropped' : dropSpaces (spaces ++ (mark ++ z) ++ .char '?' :: (v ++ .char '\x7d' :: after)) =
        mark ++ z ++ .char '?' :: (v ++ .char '\x7d' :: after) := by
      rw [List.append_assoc, dropSpaces, List.dropWhile_append_of_pos hspaces, List.append_assoc]
      exact hdropped _
    rw [hdropped']
    exact hquestion
  rw [← hx, ← hw, hafterClause, ← List.append_assoc w] at hhead
  have hhead' := head_in_front hplace' hhead
  obtain ⟨text, hread'⟩ := read_of_parts hhead' hbody' hnumber
  rw [← List.append_assoc] at hread'
  refine ⟨x ++ (w ++ (spaces ++ (mark ++ z))), v ++ .char '\x7d' :: after, _, ?_, ?_, ?_,
    hplace'.behind (.char '\x7b' :: x), hread', ⟨rfl, rfl, rfl, rfl, by rw [hmetadata]; rfl⟩, rfl, rfl⟩
  · rw [← hx, ← hw, hafterClause]
    simp only [List.append_assoc]
  · rw [List.length_append, List.length_cons]
    omega
  · have hlength := length_of_read h
    rw [← hx, ← hw, hafterClause] at hlength
    simp only [List.length_append, List.length_cons] at hlength ⊢
    rw [metadataStart, hmetadata, Option.getD_some, List.length_append]
    omega

end Marker

end Errand
