/-
  Errand.Proofs.Wildcard.Nesting — a wildcard put into another one.

  A wildcard that is read alone can stand in the metadata or in the clause of another one.
  Where it ends is told by three rules: alone its own clause heeds quotes, in metadata only
  brackets count, and in a clause quotes count outside of brackets. They agree as long as
  its brackets are balanced when quotes are not heeded. In metadata this is all that is asked
  for, in a clause it is that the reader of the clause passes it (`nesting`). A bracket in
  quotes makes the difference (`quoted_bracket`).
-/

import Errand.Proofs.Text.Trimming
import Errand.Proofs.Wildcard.Clauses
import Errand.Proofs.Wildcard.Numbering
import Errand.Proofs.Wildcard.Plain

namespace Errand
open Errand.Bracket (inFront)

/-- An occurrence where it is nested, some characters behind the beginning. -/
def Occurrence.within (place : Nat) (w : Occurrence) : Occurrence :=
  { w with start := w.start + place, stop := w.stop + place, nested := true }

/-! ## Texts that are one wildcard -/

/-- A text that a scan reads as one wildcard, from its beginning to its end. -/
def IsWildcard (t : Text) : Prop :=
  ∃ n found n' w, (scan t).run n = (.ok found, n') ∧ found.direct = [w] ∧ w.start = 0 ∧ w.stop = t.length

namespace Markup

/-- Markup without a fault gets its numbers from any on. -/
theorem run_of_faultless {m : Markup} (h : m.fault? = none) (nested : Bool) (n : Int) :
    ∃ found n', (m.number nested).run n = (.ok found, n') := by
  have haccounts := run_number m nested n
  rcases hrun : (m.number nested).run n with ⟨f | found, n'⟩
  · rw [hrun, Accounts, h] at haccounts
    cases haccounts.1
  · exact ⟨found, n', rfl⟩

theorem faultless_of_run {m : Markup} {nested : Bool} {n n' : Int} {found : Found}
    (h : (m.number nested).run n = (.ok found, n')) : m.fault? = none := by
  have haccounts := run_number m nested n
  rw [h] at haccounts
  exact haccounts.1

theorem run_numberOf (m : Marker) (n : Int) : ∃ k n', (numberOf m).run n = (.ok k, n') := by
  rcases hm : m.number with _ | k
  · exact ⟨n, n + 1, run_numberOf_none hm n⟩
  · exact ⟨k, n, run_numberOf_some hm n⟩

theorem run_char {c : CodePoint} {m : Markup} {nested : Bool} {n n' : Int} {found : Found}
    (h : ((char c m).number nested).run n = (.ok found, n')) :
    ∃ found', (m.number nested).run n = (.ok found', n') ∧ found.direct = found'.direct := by
  obtain ⟨r, n₁, hr, h⟩ := run_bind_eq_ok.mp h
  obtain ⟨rfl, rfl⟩ := run_pure_eq_ok.mp h
  exact ⟨r, hr, rfl⟩

/-- What is found directly begins in the text. -/
theorem start_of_run {kind : MarkupKind} {place : Nat} {t : Text} {nested : Bool} {n n' : Int} {found : Found}
    (h : ((read kind place t).number nested).run n = (.ok found, n')) : ∀ w ∈ found.direct, place ≤ w.start := by
  fun_induction read kind place t generalizing n n' found with
  | case1 =>
    obtain ⟨rfl, -⟩ := run_pure_eq_ok.mp h
    intro w hw
    cases hw
  | case2 place c rest ih =>
    obtain ⟨found', hrest, hdirect⟩ := run_char h
    rw [hdirect]
    exact fun w hw => Nat.le_of_succ_le (ih hrest w hw)
  | case3 kind place c rest _ ih =>
    have hescaped : ∃ found', ((read kind (place + 2) rest).number nested).run n = (.ok found', n') ∧
        found.direct = found'.direct := by
      rw [escaped] at h
      split at h
      · exact run_char h
      · obtain ⟨found', hrest, hdirect⟩ := run_char h
        obtain ⟨found'', hrest', hdirect'⟩ := run_char hrest
        exact ⟨found'', hrest', hdirect.trans hdirect'⟩
    obtain ⟨found', hrest, hdirect⟩ := hescaped
    rw [hdirect]
    exact fun w hw => Nat.le_of_add_right_le (ih hrest w hw)
  | case4 => cases h
  | case5 kind place rest _ _ ih =>
    obtain ⟨found', hrest, hdirect⟩ := run_char h
    rw [hdirect]
    exact fun w hw => Nat.le_of_succ_le (ih hrest w hw)
  | case6 kind place rest m after _ _ _ _ ih =>
    obtain ⟨k, n₁, c, n₂, d, n₃, r, -, -, -, hr, rfl⟩ := run_marker_ok h
    refine List.forall_mem_cons.mpr ⟨Nat.le_refl _, ?_⟩
    intro w hw
    exact Nat.le_of_add_right_le (ih hr w hw)
  | case7 kind place c rest _ _ ih =>
    obtain ⟨found', hrest, hdirect⟩ := run_char h
    rw [hdirect]
    exact fun w hw => Nat.le_of_succ_le (ih hrest w hw)

end Markup

/-- A text that is read as one marker. -/
structure OneMarker (t : Text) (m : Marker) : Prop where
  read : ∃ rest, t = .char '\x7b' :: rest ∧ Marker.read rest = .ok (some (m, []))
  clause : (Markup.read .clause 0 (m.clause.getD [])).fault? = none
  metadata : (Markup.read .metadata 0 (m.metadata.getD [])).fault? = none

/-- The one occurrence that spans the text is that of the marker the text is read as. -/
theorem oneMarker_of_run {t : Text} {n n' : Int} {found : Found} {w : Occurrence}
    (h : (scan t).run n = (.ok found, n')) (hdirect : found.direct = [w]) (hstart : w.start = 0)
    (hstop : w.stop = t.length) :
    ∃ m, OneMarker t m ∧ ∃ k c d, w = Markup.occurrence m 0 false k c d := by
  -- a text that goes on with another character has nothing at its very beginning
  have hlater : ∀ {c : CodePoint} {rest : Text},
      ((Markup.char c (Markup.read .sentence 1 rest)).number false).run n ≠ (.ok found, n') := by
    intro c rest hchar
    obtain ⟨found', hrest, he⟩ := Markup.run_char hchar
    have hplace := Markup.start_of_run hrest w (by rw [← he, hdirect]; exact List.mem_cons_self)
    omega
  rcases t with _ | ⟨c, rest⟩
  · rw [scan, Markup.read] at h
    obtain ⟨rfl, -⟩ := run_pure_eq_ok.mp h
    cases hdirect
  by_cases hc : c = '\x7b'
  · subst hc
    rw [scan, Markup.read_brace] at h
    rcases hread : Marker.read rest with f | _ | ⟨m, after⟩
    · rw [hread] at h
      cases h
    · rw [hread] at h
      exact absurd h hlater
    rw [hread] at h
    obtain ⟨k, n₁, c, n₂, d, n₃, r, -, hclause, hmetadata, -, rfl⟩ := Markup.run_marker_ok h
    obtain ⟨rfl, -⟩ := List.cons.inj hdirect
    obtain ⟨_, _, _, -, -, -, hm⟩ := Marker.read_eq_ok_iff.mp hread
    have htext : m.text = .char '\x7b' :: rest.take (rest.length - after.length) := by rw [hm]
    have hafter : after = [] := by
      have hlength : after.length ≤ rest.length := (Marker.read_length hread).1
      have hspan : 0 + m.text.length = rest.length + 1 := hstop
      rw [htext, List.length_cons, List.length_take] at hspan
      have hzero : after.length = 0 := by omega
      exact List.length_eq_zero_iff.mp hzero
    subst hafter
    exact ⟨m, ⟨⟨rest, rfl, hread⟩, Markup.faultless_of_run hclause, Markup.faultless_of_run hmetadata⟩, k, c.text,
      d.text, rfl⟩
  · rw [scan, Markup.read_cons_plain hc (Or.inl rfl)] at h
    exact absurd h hlater

/-- The scan of a text that is one marker. -/
theorem run_scan_marker {rest : Text} {m : Marker} (hread : Marker.read rest = .ok (some (m, [])))
    {k n n₁ n₂ n₃ : Int} {c d : Found} (hk : (Markup.numberOf m).run n = (.ok k, n₁))
    (hc : ((Markup.read .clause 0 (m.clause.getD [])).number true).run n₁ = (.ok c, n₂))
    (hd : ((Markup.read .metadata 0 (m.metadata.getD [])).number true).run n₂ = (.ok d, n₃)) :
    let w := Markup.occurrence m 0 false k c.text d.text
    (scan (.char '\x7b' :: rest)).run n = (.ok ⟨reference w.keycode, [w], w :: (c.all ++ d.all)⟩, n₃) := by
  rw [scan, Markup.read_brace, hread]
  dsimp only
  rw [Markup.run_marker hk hc hd, Markup.run_read_nil]
  simp only [Except.map, List.append_nil, List.cons_append]

theorem oneMarker_of_isWildcard {t : Text} (h : IsWildcard t) : ∃ m, OneMarker t m := by
  obtain ⟨n, found, n', w, hrun, hdirect, hstart, hstop⟩ := h
  obtain ⟨m, hm, -⟩ := oneMarker_of_run hrun hdirect hstart hstop
  exact ⟨m, hm⟩

namespace OneMarker
variable {t : Text} {m : Marker}

/-- Behind any text the marker is read as it is alone. -/
theorem markup (h : OneMarker t m) (kind : MarkupKind) (place : Nat) : Markup.read kind place t =
    .marker m place (Markup.read .clause 0 (m.clause.getD [])) (Markup.read .metadata 0 (m.metadata.getD [])) .done := by
  obtain ⟨rest, ht, hread⟩ := h.read
  rw [ht, Markup.read_brace, hread]
  dsimp only
  rw [Markup.read]

/-- What a scan of it finds, and what a scan finds where it is nested. -/
theorem run (h : OneMarker t m) (n : Int) : ∃ w more n', (scan t).run n = (.ok ⟨reference w.keycode, [w], w :: more⟩, n') ∧
    ∀ kind place, ((Markup.read kind place t).number true).run n =
      (.ok ⟨reference w.keycode, [w.within place], w.within place :: more⟩, n') := by
  obtain ⟨k, n₁, hk⟩ := Markup.run_numberOf m n
  obtain ⟨c, n₂, hc⟩ := Markup.run_of_faultless h.clause true n₁
  obtain ⟨d, n₃, hd⟩ := Markup.run_of_faultless h.metadata true n₂
  refine ⟨Markup.occurrence m 0 false k c.text d.text, c.all ++ d.all, n₃, ?_, ?_⟩
  · obtain ⟨rest, ht, hread⟩ := h.read
    rw [ht]
    exact run_scan_marker hread hk hc hd
  · intro kind place
    have hdone : (Markup.done.number true).run n₃ = (.ok ⟨[], [], []⟩, n₃) := rfl
    have hwithin : (Markup.occurrence m 0 false k c.text d.text).within place =
        Markup.occurrence m place true k c.text d.text := by
      unfold Occurrence.within Markup.occurrence
      congr 1
      · exact Nat.zero_add place
      · show 0 + m.text.length + place = place + m.text.length
        omega
    rw [h.markup, Markup.run_marker hk hc hd, hdone]
    simp only [Except.map, List.append_nil, List.cons_append, hwithin]
    rfl

end OneMarker

/-! ## Inside another one -/

/-- The wildcard as the metadata of another. -/
def inMetadata (t : Text) : Text := "\x7bvoid meta: ".text ++ t ++ "\x7d".text

/-- The wildcard as the category that another asks for. -/
def inClause (t : Text) : Text := "\x7bobject where category = ".text ++ t ++ "\x7d".text

/-- The void wildcard around one with a keycode. -/
def voidAround (t keycode : Text) (n : Int) : Occurrence where
  name := "void".text
  obfuscated := false
  subtype := none
  number := n
  clause := none
  metadata := some (reference keycode)
  start := 0
  stop := (inMetadata t).length
  text := inMetadata t
  nested := false

/-- The object wildcard around one with a keycode. -/
def objectAround (t keycode : Text) (n : Int) : Occurrence where
  name := "object".text
  obfuscated := false
  subtype := none
  number := n
  clause := some ("category = ".text ++ reference keycode)
  metadata := none
  start := 0
  stop := (inClause t).length
  text := inClause t
  nested := false

/-- A scan of the metadata finds what a scan of the wildcard alone finds, with the numbers
    behind that of the wildcard around it. -/
def ReadInMetadata (t : Text) : Prop :=
  ∀ n, ∃ w more text n', (scan t).run (n + 1) = (.ok ⟨text, [w], w :: more⟩, n') ∧
    (scan (inMetadata t)).run n = (.ok ⟨reference (keycode "void".text n), [voidAround t w.keycode n],
      voidAround t w.keycode n :: w.within 1 :: more⟩, n')

def ReadInClause (t : Text) : Prop :=
  ∀ n, ∃ w more text n', (scan t).run (n + 1) = (.ok ⟨text, [w], w :: more⟩, n') ∧
    (scan (inClause t)).run n = (.ok ⟨reference (keycode "object".text n), [objectAround t w.keycode n],
      objectAround t w.keycode n :: w.within 11 :: more⟩, n')

/-- The reader of a clause goes over a text up to the bracket behind it. -/
def PassedInClause (t : Text) : Prop := clauseFrom none 0 ' ' (t ++ "\x7d".text) = some (t, "\x7d".text)

theorem trimmed_reference (keycode : Text) : Text.Trimmed (reference keycode) := by
  constructor
  · intro c hc
    cases hc
    decide
  · intro c hc
    have hclose : ">>".text ≠ [] := List.cons_ne_nil _ _
    rw [reference, List.getLast?_append_of_ne_nil _ hclose] at hc
    cases hc
    decide

/-- Behind the beginning of a clause a text without blanks at its ends is not trimmed. -/
theorem trim_category {t : Text} (ht : Text.Trimmed t) (hne : t ≠ []) :
    Text.trim ("category = ".text ++ t) = "category = ".text ++ t := by
  refine Text.trim_eq_self ⟨?_, ?_⟩
  · intro c hc
    cases hc
    decide
  · intro c hc
    rw [List.getLast?_append_of_ne_nil _ hne] at hc
    exact ht.2 c hc

/-! ## In metadata -/

def voidHead : MarkerHead := ⟨"void".text, false, none, none⟩

/-- What the text of a wildcard with metadata is read as. -/
theorem void_read_iff {u : Text} {m : Marker} : Marker.read ("void meta:".text ++ u) = .ok (some (m, [])) ↔
    ∃ inside, Bracket.closing? .curly u = some (inside, []) ∧
      m = ⟨voidHead, ⟨none, some inside⟩, .char '\x7b' :: ("void meta:".text ++ u)⟩ := by
  have hhead : MarkerHead.read ("void meta:".text ++ u) = .ok (some (voidHead, "meta:".text ++ u)) := rfl
  have hbody : MarkerBody.read? ("meta:".text ++ u) =
      (Bracket.closing? .curly u).map fun found => (⟨none, some found.1⟩, found.2) := rfl
  have htext : ("void meta:".text ++ u).take (("void meta:".text ++ u).length - 0) = "void meta:".text ++ u := by
    rw [Nat.sub_zero, List.take_length]
  rw [Marker.read_eq_ok_iff]
  constructor
  · rintro ⟨head, afterHead, body, hh, hb, -, hm⟩
    rw [hhead] at hh
    cases hh
    rw [hbody] at hb
    obtain ⟨⟨inside, after⟩, hclose, he⟩ := Option.map_eq_some_iff.mp hb
    cases he
    exact ⟨inside, hclose, hm.trans (by rw [List.length_nil, htext])⟩
  · rintro ⟨inside, hclose, hm⟩
    refine ⟨voidHead, _, ⟨none, some inside⟩, hhead, ?_, by decide, hm.trans (by rw [List.length_nil, htext])⟩
    rw [hbody, hclose]
    rfl

theorem inMetadata_eq (t : Text) : inMetadata t = .char '\x7b' :: ("void meta:".text ++ (" ".text ++ t ++ "\x7d".text)) := by
  rw [inMetadata]
  simp only [List.append_assoc]
  rfl

theorem closing?_inMetadata {t inside : Text} :
    Bracket.closing? .curly (" ".text ++ t ++ "\x7d".text) = some (inside, []) ↔
      Bracket.Balanced .curly t ∧ inside = " ".text ++ t := by
  rw [Bracket.closing?_eq_some_iff Bracket.Pair.curly_proper]
  constructor
  · rintro ⟨hb, he⟩
    have hinside : inside = " ".text ++ t := (List.append_inj_left' he rfl).symm
    subst hinside
    refine ⟨?_, rfl⟩
    -- the space in front is no bracket
    cases hb with
    | plain _ _ _ ht => exact ht
  · rintro ⟨hb, rfl⟩
    exact ⟨.plain (by decide) (by decide) (by decide) hb, rfl⟩

theorem occurrence_void (t keycode : Text) (n : Int) :
    Markup.occurrence ⟨voidHead, ⟨none, some (" ".text ++ t)⟩, inMetadata t⟩ 0 false n []
      (" ".text ++ reference keycode) = voidAround t keycode n := by
  have htrim : Text.trim (" ".text ++ reference keycode) = reference keycode :=
    (Text.trim_cons_blank (by decide) _).trans (Text.trim_eq_self (trimmed_reference _))
  unfold Markup.occurrence voidAround
  congr 1
  · exact congrArg some htrim
  · exact Nat.zero_add _

theorem read_inMetadata {t : Text} (hb : Bracket.Balanced .curly t) :
    Marker.read ("void meta:".text ++ (" ".text ++ t ++ "\x7d".text)) =
      .ok (some (⟨voidHead, ⟨none, some (" ".text ++ t)⟩, inMetadata t⟩, [])) :=
  void_read_iff.mpr ⟨_, closing?_inMetadata.mpr ⟨hb, rfl⟩, by rw [inMetadata_eq]⟩

theorem read_space (t : Text) : Markup.read .metadata 0 (" ".text ++ t) = .behind " ".text (Markup.read .metadata 1 t) :=
  Markup.read_plain (by decide) (Or.inr (by decide)) 0 t

/-- In metadata a wildcard is read as it is alone if its brackets are balanced. -/
theorem OneMarker.readInMetadata {t : Text} {m : Marker} (h : OneMarker t m) (hb : Bracket.Balanced .curly t) :
    ReadInMetadata t := by
  intro n
  obtain ⟨w, more, n', halone, hnested⟩ := h.run (n + 1)
  refine ⟨w, more, reference w.keycode, n', halone, ?_⟩
  have hmetadata : ((Markup.read .metadata 0 (" ".text ++ t)).number true).run (n + 1) =
      (.ok ⟨" ".text ++ reference w.keycode, [w.within 1], w.within 1 :: more⟩, n') := by
    rw [read_space, Markup.run_behind, hnested]
    rfl
  have hnumber : (Markup.numberOf ⟨voidHead, ⟨none, some (" ".text ++ t)⟩, inMetadata t⟩).run n = (.ok n, n + 1) :=
    run_numberOf_none rfl n
  have hrun := run_scan_marker (read_inMetadata hb) hnumber (Markup.run_read_nil _ _ _ _) hmetadata
  rw [inMetadata_eq]
  simp only [occurrence_void] at hrun
  exact hrun

/-- It is read so only if they are. -/
theorem balanced_of_readInMetadata {t : Text} (h : ReadInMetadata t) : Bracket.Balanced .curly t := by
  obtain ⟨w, more, text, n', -, hrun⟩ := h 0
  obtain ⟨m, ⟨⟨rest, hrest, hread⟩, -, -⟩, -⟩ := oneMarker_of_run hrun rfl rfl rfl
  rw [inMetadata_eq] at hrest
  cases hrest
  obtain ⟨inside, hclose, -⟩ := void_read_iff.mp hread
  exact (closing?_inMetadata.mp hclose).1

/-! ## In a clause -/

def objectHead : MarkerHead := ⟨"object".text, false, none, none⟩

theorem inClause_eq (t : Text) : inClause t = .char '\x7b' :: ("object where category = ".text ++ (t ++ "\x7d".text)) := by
  rw [inClause]
  simp only [List.append_assoc]
  rfl

theorem head_object (u : Text) : MarkerHead.read ("object where category = ".text ++ u) =
    .ok (some (objectHead, "where category = ".text ++ u)) := rfl

/-- The reader of the clause is at the wildcard when it has gone over what is in front. -/
theorem clauseFrom_category (t : Text) : clauseFrom none 0 'e' (" category = ".text ++ .char '\x7b' :: t) =
    inFront " category = ".text (clauseFrom none 0 ' ' (.char '\x7b' :: t)) := by
  have hordinary : ∀ c ∈ " category = ".text, IsOrdinary c ∧ c ≠ 'm' := by
    intro c hc
    have hclass : (Reader.isNameChar c || isSignChar c || c == ' ') = true ∧ c ≠ 'm' := by
      revert c
      decide
    exact ⟨isOrdinary_of_class (p := fun c => Reader.isNameChar c || isSignChar c || c == ' ') hclass.1 (by decide), hclass.2⟩
  obtain ⟨last, hpass⟩ := passes_plain hordinary (.char '\x7b' :: t) 'e'
  rw [hpass, clauseFrom_open, clauseFrom_open]

theorem readClause_inClause {t : Text} : MarkerBody.readClause? (Reader.dropSpaces ("where category = ".text ++ .char '\x7b' :: t)) =
    (clauseFrom none 0 ' ' (.char '\x7b' :: t)).map fun (clause, after) =>
      (some (Text.trim (" category = ".text ++ clause)), after) := by
  have hkeyword : Reader.keyword? "where".text (Reader.dropSpaces ("where category = ".text ++ .char '\x7b' :: t)) =
    some (" category = ".text ++ .char '\x7b' :: t) := rfl
  rw [MarkerBody.readClause?, hkeyword]
  dsimp only
  rw [clauseFrom_category, inFront, Option.map_map]
  rfl

theorem object_read {u clause : Text} (h : clauseFrom none 0 ' ' (.char '\x7b' :: u) = some (clause, "\x7d".text)) :
    Marker.read ("object where category = ".text ++ .char '\x7b' :: u) =
      .ok (some (⟨objectHead, ⟨some (Text.trim (" category = ".text ++ clause)), none⟩,
        .char '\x7b' :: ("object where category = ".text ++ .char '\x7b' :: u)⟩, [])) := by
  have hbody : MarkerBody.read? ("where category = ".text ++ .char '\x7b' :: u) =
      some (⟨some (Text.trim (" category = ".text ++ clause)), none⟩, []) := by
    rw [MarkerBody.read?, readClause_inClause, h]
    rfl
  refine Marker.read_eq_ok_iff.mpr ⟨objectHead, _, _, head_object _, hbody, by decide, ?_⟩
  rw [List.length_nil, Nat.sub_zero, List.take_length]

theorem dropSpaces_of_mark {t inside : Text} (h : metadataMark? t = some inside) : Reader.dropSpaces t = t := by
  cases t with
  | nil => rfl
  | cons c rest =>
    rw [eq_of_metadataMark? h]
    rfl

/-- Without metadata the marker ends where its clause does. -/
theorem clause_of_object_read {u : Text} {m : Marker}
    (h : Marker.read ("object where category = ".text ++ .char '\x7b' :: u) = .ok (some (m, [])))
    (hm : m.metadata = none) : ∃ clause, clauseFrom none 0 ' ' (.char '\x7b' :: u) = some (clause, "\x7d".text) := by
  obtain ⟨head, afterHead, body, hhead, hbody, -, rfl⟩ := Marker.read_eq_ok_iff.mp h
  rw [head_object] at hhead
  cases hhead
  have hnone : body.metadata = none := hm
  rw [MarkerBody.read?, readClause_inClause] at hbody
  rcases hc : clauseFrom none 0 ' ' (.char '\x7b' :: u) with _ | ⟨clause, after⟩
  · rw [hc] at hbody
    cases hbody
  rw [hc] at hbody
  simp only [Option.map_some] at hbody
  refine ⟨clause, ?_⟩
  rcases clauseFrom_stop hc with ⟨rest, rfl⟩ | hmark
  · have hclose : Bracket.closing? .curly (.char '\x7d' :: rest) = some ([], rest) :=
      (Bracket.closing?_eq_some_iff Bracket.Pair.curly_proper).mpr ⟨.nil, rfl⟩
    have hnomark : metadataMark? (.char '\x7d' :: rest) = none := metadataMark?_eq_none (by decide) rest
    have hdrop : Reader.dropSpaces (.char '\x7d' :: rest) = .char '\x7d' :: rest := rfl
    rw [hdrop, hnomark] at hbody
    dsimp only at hbody
    rw [hclose] at hbody
    cases hbody
    rfl
  · -- what begins metadata would have been read as such
    obtain ⟨inside, hinside⟩ := Option.isSome_iff_exists.mp hmark
    rw [dropSpaces_of_mark hinside, hinside] at hbody
    dsimp only at hbody
    obtain ⟨⟨metadata, rest⟩, -, he⟩ := Option.map_eq_some_iff.mp hbody
    cases he
    cases hnone

theorem occurrence_object (t keycode : Text) (n : Int) :
    Markup.occurrence ⟨objectHead, ⟨some ("category = ".text ++ t), none⟩, inClause t⟩ 0 false n
      ("category = ".text ++ reference keycode) [] = objectAround t keycode n := by
  have htrim : Text.trim ("category = ".text ++ reference keycode) = "category = ".text ++ reference keycode :=
    trim_category (trimmed_reference _) (List.cons_ne_nil _ _)
  have hkept : Text.trim ("category = ".text ++ reference keycode) ≠ [] := by
    rw [htrim]
    exact List.cons_ne_nil _ _
  have hclause := Markup.occurrence_clause (m := ⟨objectHead, ⟨some ("category = ".text ++ t), none⟩, inClause t⟩) rfl
    hkept 0 false n []
  rw [htrim] at hclause
  unfold Markup.occurrence objectAround
  congr 1
  exact Nat.zero_add _

theorem OneMarker.trimmed {t : Text} {m : Marker} (h : OneMarker t m) : Text.Trimmed t := by
  obtain ⟨rest, rfl, hread⟩ := h.read
  constructor
  · intro c hc
    cases hc
    decide
  · intro c hc
    -- a marker that takes the whole text ends with its bracket
    obtain ⟨front, hfront⟩ := Marker.read_suffix hread
    rw [← hfront, ← List.cons_append, List.getLast?_append] at hc
    cases hc
    decide

/-- What the text with a clause is read as. -/
theorem OneMarker.object_read {t : Text} {m : Marker} (h : OneMarker t m) (hpass : PassedInClause t) :
    Marker.read ("object where category = ".text ++ (t ++ "\x7d".text)) =
      .ok (some (⟨objectHead, ⟨some ("category = ".text ++ t), none⟩, inClause t⟩, [])) := by
  obtain ⟨rest, ht, -⟩ := h.read
  have hne : t ≠ [] := by
    rw [ht]
    exact List.cons_ne_nil _ _
  have htrim : Text.trim (" category = ".text ++ t) = "category = ".text ++ t :=
    (Text.trim_cons_blank (by decide) _).trans (trim_category h.trimmed hne)
  rw [inClause_eq, ← htrim]
  rw [PassedInClause, ht, List.cons_append] at hpass
  rw [ht, List.cons_append]
  exact Errand.object_read hpass

/-- In a clause a wildcard is read as it is alone if the clause goes on over it. -/
theorem OneMarker.readInClause {t : Text} {m : Marker} (h : OneMarker t m) (hpass : PassedInClause t) :
    ReadInClause t := by
  intro n
  obtain ⟨w, more, n', halone, hnested⟩ := h.run (n + 1)
  refine ⟨w, more, reference w.keycode, n', halone, ?_⟩
  have hclause : ((Markup.read .clause 0 ("category = ".text ++ t)).number true).run (n + 1) =
      (.ok ⟨"category = ".text ++ reference w.keycode, [w.within 11], w.within 11 :: more⟩, n') := by
    have hfront : Markup.read .clause 0 ("category = ".text ++ t) =
        .behind "category = ".text (Markup.read .clause 11 t) :=
      Markup.read_plain (by decide) (Or.inr (by decide)) 0 t
    rw [hfront, Markup.run_behind, hnested]
    rfl
  have hnumber : (Markup.numberOf ⟨objectHead, ⟨some ("category = ".text ++ t), none⟩, inClause t⟩).run n =
      (.ok n, n + 1) := run_numberOf_none rfl n
  have hrun := run_scan_marker (h.object_read hpass) hnumber hclause (Markup.run_read_nil _ _ _ _)
  rw [inClause_eq]
  simp only [occurrence_object, List.append_nil] at hrun
  exact hrun

/-- It is read so only if it does. -/
theorem passed_of_readInClause {t : Text} {m : Marker} (h : OneMarker t m) (hread : ReadInClause t) : PassedInClause t := by
  obtain ⟨u, ht, -⟩ := h.read
  obtain ⟨w, more, text, n', -, hrun⟩ := hread 0
  obtain ⟨m', ⟨⟨rest, hrest, hread'⟩, -, -⟩, k, c, d, hw⟩ := oneMarker_of_run hrun rfl rfl rfl
  rw [inClause_eq, ht, List.cons_append] at hrest
  cases hrest
  have hnone : m'.metadata = none := by
    have hmetadata := congrArg Occurrence.metadata hw
    exact Option.map_eq_none_iff.mp hmetadata.symm
  obtain ⟨clause, hclause⟩ := clause_of_object_read hread' hnone
  have hwhole : clause = t := by
    have he := clauseFrom_eq hclause
    rw [← List.cons_append, ← ht] at he
    exact (List.append_inj_left' he rfl).symm
  rw [PassedInClause, ← hwhole, ← hclause]
  rw [hwhole, ht, List.cons_append]

/-! ## Both -/

/-- Without a bracket of its own too many or too few, a wildcard may stand anywhere. -/
theorem passedInClause_of_balanced {inside : Text} (h : Bracket.Balanced .curly inside) :
    PassedInClause ("\x7b".text ++ inside ++ "\x7d".text) := by
  have hclose : clauseFrom none 1 ' ' (.char '\x7d' :: "\x7d".text) = some ("\x7d".text, "\x7d".text) := by
    have hend : clauseFrom none 0 '\x7d' "\x7d".text = some ([], "\x7d".text) := clauseFrom_end []
    rw [clauseFrom_close, hend]
    rfl
  have htext : "\x7b".text ++ inside ++ "\x7d".text ++ "\x7d".text =
      .char '\x7b' :: (inside ++ .char '\x7d' :: "\x7d".text) := by
    rw [List.append_assoc, List.append_assoc]
    rfl
  rw [PassedInClause, htext, clauseFrom_open, clauseFrom_balanced h 0 '\x7b' ' ', hclose]
  rfl

/-- A wildcard that is read alone is read just so inside of another one, with the numbers
    behind that of the other: in metadata if and only if its brackets are balanced, in a clause
    if and only if the clause goes on over it. Both is the case if what stands between its
    own brackets is balanced. -/
theorem nesting {t : Text} (h : IsWildcard t) :
    (ReadInMetadata t ↔ Bracket.Balanced .curly t) ∧ (ReadInClause t ↔ PassedInClause t) ∧
      ∀ inside, t = "\x7b".text ++ inside ++ "\x7d".text → Bracket.Balanced .curly inside →
        ReadInMetadata t ∧ ReadInClause t := by
  obtain ⟨m, hm⟩ := oneMarker_of_isWildcard h
  refine ⟨⟨balanced_of_readInMetadata, hm.readInMetadata⟩, ⟨passed_of_readInClause hm, hm.readInClause⟩, ?_⟩
  rintro inside rfl hb
  exact ⟨hm.readInMetadata (.pair hb .nil), hm.readInClause (passedInClause_of_balanced hb)⟩

/-- Where the wildcards of a text begin and end, if the scan ends well. -/
def spans (t : Text) : Option (List (Nat × Nat)) :=
  ((scan t).run firstAutomatic).1.toOption.map fun f => f.direct.map fun w => (w.start, w.stop)

theorem isWildcard_of_spans {t : Text} (h : spans t = some [(0, t.length)]) : IsWildcard t := by
  obtain ⟨found, n', hrun, hspans⟩ := ok_of_toOption h
  obtain ⟨w, hdirect, hw⟩ := List.map_eq_singleton_iff.mp hspans
  exact ⟨_, found, n', w, hrun, hdirect, congrArg Prod.fst hw, congrArg Prod.snd hw⟩

/-- A clause with an apostrophe in quotes, and metadata with a bracket that is escaped. -/
def cupboard : Text := "\x7blocation where name = \"tom's\" meta: \\\x7b on the left\x7d".text

theorem nesting_cupboard : ReadInMetadata cupboard ∧ ReadInClause cupboard := by
  have hspans : spans cupboard = some [(0, cupboard.length)] := by decide +kernel
  have hclosing : Bracket.closing? .curly "location where name = \"tom's\" meta: \\\x7b on the left\x7d".text =
      some ("location where name = \"tom's\" meta: \\\x7b on the left".text, []) := by decide +kernel
  have hbalanced := ((Bracket.closing?_eq_some_iff Bracket.Pair.curly_proper).mp hclosing).1
  exact (nesting (isWildcard_of_spans hspans)).2.2 _ rfl hbalanced

theorem spans_of_readInMetadata {t : Text} (h : ReadInMetadata t) :
    spans (inMetadata t) = some [(0, (inMetadata t).length)] := by
  obtain ⟨w, more, text, n', -, hrun⟩ := h firstAutomatic
  rw [spans, hrun]
  rfl

theorem spans_of_readInClause {t : Text} (h : ReadInClause t) :
    spans (inClause t) = some [(0, (inClause t).length)] := by
  obtain ⟨w, more, text, n', -, hrun⟩ := h firstAutomatic
  rw [spans, hrun]
  rfl

/-- A closing bracket in quotes. -/
def quotedBracket : Text := "\x7bobject where name = \"\x7d\"\x7d".text

/-- Alone it is one wildcard. But where it is nested its quotes are not heeded, and in neither
    place is it read as it is alone. -/
theorem quoted_bracket : IsWildcard quotedBracket ∧ ¬ReadInMetadata quotedBracket ∧ ¬ReadInClause quotedBracket := by
  have hspans : spans quotedBracket = some [(0, quotedBracket.length)] := by decide +kernel
  have hmetadata : spans (inMetadata quotedBracket) ≠ some [(0, (inMetadata quotedBracket).length)] := by
    decide +kernel
  have hclause : spans (inClause quotedBracket) ≠ some [(0, (inClause quotedBracket).length)] := by decide +kernel
  exact ⟨isWildcard_of_spans hspans, fun h => hmetadata (spans_of_readInMetadata h),
    fun h => hclause (spans_of_readInClause h)⟩

end Errand
