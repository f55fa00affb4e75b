/-
  Errand.Proofs.Wildcard.Notices — texts that a void wildcard can tell.

  A wildcard that stands for nothing can carry a text in its metadata. Not every text comes out of
  the scan as it went in: blanks at its ends are trimmed, a backslash in front of a bracket or of
  another backslash is dropped, a bracket without a partner ends the wildcard early or not at all,
  and a bracket that begins a wildcard is replaced with what is in it. A text with none of
  these is tellable (`Tellable`), and no other one is told (`notice_iff`).
-/

import Errand.Proofs.Wildcard.Nesting
import Mathlib.Data.List.Chain

namespace Errand

/-! ## Metadata without wildcards -/

namespace Markup
variable {t u : Text} {place : Nat}

/-- What a scan finds no wildcard in is text from end to end. -/
theorem behind_of_run {m : Markup} {nested : Bool} {n n' : Int} {found : Found}
    (h : (m.number nested).run n = (.ok found, n')) (hall : found.all = []) : m = behind found.text .done := by
  induction m generalizing n n' found with
  | done =>
    obtain ⟨rfl, -⟩ := run_pure_eq_ok.mp h
    rfl
  | fault f => cases h
  | char c rest ih =>
    obtain ⟨r, n₁, hr, h⟩ := run_bind_eq_ok.mp h
    obtain ⟨rfl, -⟩ := run_pure_eq_ok.mp h
    exact congrArg (char c) (ih hr hall)
  | marker m place clause metadata rest =>
    obtain ⟨k, n₁, c, n₂, d, n₃, r, -, -, -, -, rfl⟩ := run_marker_ok h
    cases hall

theorem char_eq_behind {c : CodePoint} {m : Markup} (h : char c m = behind u .done) :
    ∃ v, u = c :: v ∧ m = behind v .done := by
  cases u with
  | nil => cases h
  | cons d v =>
    obtain ⟨rfl, hm⟩ := Markup.char.inj h
    exact ⟨v, rfl, hm⟩

theorem fault_ne_behind {f : MarkerFault} : fault f ≠ behind u .done := by
  cases u <;> exact fun h => by cases h

theorem marker_ne_behind {m : Marker} {clause metadata rest : Markup} : marker m place clause metadata rest ≠ behind u .done := by
  cases u <;> exact fun h => by cases h

/-- Reading metadata drops backslashes and nothing else. -/
theorem sublist_of_read (h : read .metadata place t = behind u .done) : u.Sublist t := by
  generalize hkind : MarkupKind.metadata = kind at h
  fun_induction read kind place t generalizing u with
  | case1 =>
    cases u with
    | nil => exact .slnil
    | cons => cases h
  | case2 => cases hkind
  | case3 kind place c rest _ ih =>
    unfold escaped at h
    split at h
    · obtain ⟨v, rfl, hv⟩ := char_eq_behind h
      exact ((ih hkind hv).cons_cons c).cons _
    · obtain ⟨w, rfl, hw⟩ := char_eq_behind h
      obtain ⟨v, rfl, hv⟩ := char_eq_behind hw
      exact ((ih hkind hv).cons_cons c).cons_cons _
  | case4 => exact absurd h fault_ne_behind
  | case5 kind place rest _ _ ih =>
    obtain ⟨v, rfl, hv⟩ := char_eq_behind h
    exact (ih hkind hv).cons_cons _
  | case6 => exact absurd h marker_ne_behind
  | case7 kind place c rest _ _ ih =>
    obtain ⟨v, rfl, hv⟩ := char_eq_behind h
    exact (ih hkind hv).cons_cons _

end Markup

/-- A text that metadata shows as it is written: no backslash in it is dropped, and no bracket in it
    begins a wildcard. -/
structure Literal (t : Text) : Prop where
  unescaped : t.IsChain fun (a b : CodePoint) => ¬(a = '\\' ∧ Markup.isUnescaped b = true)
  unmarked : ∀ front rest, t = front ++ .char '\x7b' :: rest → Marker.read rest = .ok none

namespace Literal
variable {c : CodePoint} {t : Text}

theorem tail (h : Literal (c :: t)) : Literal t := by
  refine ⟨(List.isChain_cons.mp h.unescaped).2, ?_⟩
  rintro front rest rfl
  exact h.unmarked (c :: front) rest rfl

theorem cons (h : Literal t) (hescape : c = '\\' → ∀ d ∈ t.head?, Markup.isUnescaped d = false)
    (hmarker : c = '\x7b' → Marker.read t = .ok none) : Literal (c :: t) := by
  refine ⟨h.unescaped.cons fun d hd => ?_, fun front rest e => ?_⟩
  · rintro ⟨hc, hd'⟩
    rw [hescape hc d hd] at hd'
    cases hd'
  · cases front with
    | nil =>
      cases e
      exact hmarker rfl
    | cons d front =>
      obtain ⟨rfl, rfl⟩ := List.cons.inj e
      exact h.unmarked front rest rfl

end Literal

theorem Markup.read_eq_behind_iff {place : Nat} {t : Text} : read .metadata place t = behind t .done ↔ Literal t := by
  generalize hkind : MarkupKind.metadata = kind
  fun_induction read kind place t with
  | case1 => exact iff_of_true rfl ⟨.nil, fun front rest e => by cases front <;> cases e⟩
  | case2 => cases hkind
  | case3 kind place c rest _ ih =>
    subst hkind
    by_cases hc : isUnescaped c = true
    · rw [escaped, if_pos (by simp [hc])]
      refine iff_of_false (fun h => ?_) fun h => (List.isChain_cons.mp h.unescaped).1 c rfl ⟨rfl, hc⟩
      obtain ⟨v, he, hv⟩ := char_eq_behind h
      obtain ⟨-, rfl⟩ := List.cons.inj he
      have hlength := (sublist_of_read hv).length_le
      rw [List.length_cons] at hlength
      omega
    · have hstay : Literal rest ↔ Literal (.char '\\' :: c :: rest) := by
        refine ⟨fun h => ?_, fun h => h.tail.tail⟩
        have hrest : Literal (c :: rest) := h.cons (by rintro rfl; exact absurd rfl hc) (by rintro rfl; exact absurd rfl hc)
        refine hrest.cons (fun _ d hd => ?_) fun h => by cases h
        cases hd
        exact Bool.eq_false_iff.mpr hc
      rw [escaped, if_neg (by simp [hc]), ← hstay, ← ih rfl]
      exact ⟨fun h => (Markup.char.inj (Markup.char.inj h).2).2, fun h => congrArg _ (congrArg _ h)⟩
  | case4 kind place rest f hread _ =>
    refine iff_of_false fault_ne_behind fun h => ?_
    have hnone := h.unmarked [] rest rfl
    rw [hread] at hnone
    cases hnone
  | case5 kind place rest hread _ ih =>
    rw [show behind (.char '\x7b' :: rest) .done = .char '\x7b' (behind rest .done) from rfl, Markup.char.injEq, ih hkind]
    exact ⟨fun h => h.2.cons (fun h => by cases h) fun _ => hread, fun h => ⟨rfl, h.tail⟩⟩
  | case6 kind place rest m after hread _ _ _ _ =>
    refine iff_of_false marker_ne_behind fun h => ?_
    have hnone := h.unmarked [] rest rfl
    rw [hread] at hnone
    cases hnone
  | case7 kind place c rest hslash hbrace ih =>
    rw [behind_cons, Markup.char.injEq, ih hkind]
    refine ⟨fun h => h.2.cons (fun hc d hd => ?_) fun hc => absurd hc hbrace, fun h => ⟨rfl, h.tail⟩⟩
    obtain ⟨more, hmore⟩ := List.head?_eq_some_iff.mp hd
    exact (hslash d more hc hmore).elim

/-! ## Notices -/

/-- A text that is one void wildcard, with nothing nested in it and this text for its metadata. -/
def IsNotice (t reason : Text) : Prop := ∀ n, ∃ found n' w, (scan t).run n = (.ok found, n') ∧
  found.direct = [w] ∧ found.all = [w] ∧ w.start = 0 ∧ w.stop = t.length ∧ w.name = "void".text ∧ w.metadata = some reason

/-- The marker of a notice, and what its metadata is read as. -/
theorem IsNotice.marker {t reason : Text} (h : IsNotice t reason) : ∃ m raw shown, OneMarker t m ∧
    m.metadata = some raw ∧ Markup.read .metadata 0 raw = .behind shown .done ∧ Text.trim shown = reason := by
  obtain ⟨found, n', w, hrun, hdirect, hall, hstart, hstop, -, hmetadata⟩ := h 0
  obtain ⟨m, hm, -⟩ := oneMarker_of_run hrun hdirect hstart hstop
  rw [scan, hm.markup] at hrun
  obtain ⟨k, n₁, c, n₂, d, n₃, r, -, -, hd, -, rfl⟩ := Markup.run_marker_ok hrun
  obtain ⟨hw, hnested⟩ := List.cons.inj hall
  have hnone : d.all = [] := (List.append_eq_nil_iff.mp (List.append_eq_nil_iff.mp hnested).1).2
  rw [← hw] at hmetadata
  obtain ⟨raw, hraw, htrim⟩ := Option.map_eq_some_iff.mp hmetadata
  rw [hraw] at hd
  exact ⟨m, raw, d.text, hm, hraw, Markup.behind_of_run hd hnone, htrim⟩

theorem Text.trim_space (t : Text) : trim (" ".text ++ t) = trim t := trim_cons_blank (by decide) t

/-- The characters of the text that a notice tells are in it, in this order. -/
theorem IsNotice.sublist {t reason : Text} (h : IsNotice t reason) : reason.Sublist t := by
  obtain ⟨m, raw, shown, hm, hraw, hread, rfl⟩ := h.marker
  obtain ⟨rest, rfl, hmarker⟩ := hm.read
  refine (Text.trim_sublist shown).trans ((Markup.sublist_of_read hread).trans ?_)
  exact (Marker.metadata_sublist hmarker hraw).trans (List.sublist_cons_self _ _)

/-- A text that a void wildcard tells as it is. -/
structure Tellable (t : Text) : Prop where
  trimmed : Text.trim t = t
  balanced : Bracket.Balanced .curly t
  literal : Literal t

/-- Nothing but curly brackets and backslashes means anything in metadata. -/
theorem tellable_plain {t : Text} (htrimmed : Text.trim t = t) (hback : .char '\\' ∉ t) (hopen : .char '\x7b' ∉ t)
    (hclose : .char '\x7d' ∉ t) : Tellable t where
  trimmed := htrimmed
  balanced := by
    clear htrimmed
    induction t with
    | nil => exact .nil
    | cons c t ih =>
      obtain ⟨hc₁, hback⟩ := List.ne_and_not_mem_of_not_mem_cons hback
      obtain ⟨hc₂, hopen⟩ := List.ne_and_not_mem_of_not_mem_cons hopen
      obtain ⟨hc₃, hclose⟩ := List.ne_and_not_mem_of_not_mem_cons hclose
      exact .plain hc₁.symm hc₂.symm hc₃.symm (ih hback hopen hclose)
  literal := by
    refine ⟨(List.isChain_isInfix t).imp ?_, ?_⟩
    · rintro a b hinside ⟨rfl, -⟩
      exact hback (hinside.subset List.mem_cons_self)
    · rintro front rest rfl
      exact absurd (List.mem_append_right _ List.mem_cons_self) hopen

/-- Just the tellable texts are told by a void wildcard that has them for its metadata. -/
theorem notice_iff {t : Text} : IsNotice (inMetadata t) t ↔ Tellable t := by
  constructor
  · intro h
    obtain ⟨m, raw, shown, hm, hraw, hread, htrim⟩ := h.marker
    obtain ⟨rest, hrest, hmarker⟩ := hm.read
    rw [inMetadata_eq] at hrest
    obtain ⟨-, rfl⟩ := List.cons.inj hrest
    obtain ⟨inside, hclosing, rfl⟩ := void_read_iff.mp hmarker
    obtain ⟨hbalanced, rfl⟩ := closing?_inMetadata.mp hclosing
    cases hraw
    rw [read_space] at hread
    obtain ⟨v, rfl, hv⟩ := Markup.char_eq_behind hread
    -- nothing of the text can be missing in what is shown, which has a blank in front
    have hshown : Text.trim v = t := (Text.trim_space v).symm.trans htrim
    have hsub := Markup.sublist_of_read hv
    have hsame : v = t := hsub.eq_of_length_le (by rw [← hshown]; exact (Text.trim_sublist v).length_le)
    subst hsame
    exact ⟨hshown, hbalanced, Markup.read_eq_behind_iff.mp hv⟩
  · rintro ⟨htrimmed, hbalanced, hliteral⟩ n
    have hmetadata : ((Markup.read .metadata 0 (" ".text ++ t)).number true).run (n + 1) = (.ok ⟨" ".text ++ t, [], []⟩, n + 1) := by
      rw [read_space, Markup.read_eq_behind_iff.mpr hliteral, Markup.run_behind, Markup.run_plain]
      rfl
    have hnumber : (Markup.numberOf ⟨voidHead, ⟨none, some (" ".text ++ t)⟩, inMetadata t⟩).run n = (.ok n, n + 1) :=
      run_numberOf_none rfl n
    have hrun := run_scan_marker (read_inMetadata hbalanced) hnumber (Markup.run_read_nil _ _ _ _) hmetadata
    rw [← inMetadata_eq] at hrun
    refine ⟨_, _, _, hrun, rfl, rfl, rfl, Nat.zero_add _, rfl, ?_⟩
    exact congrArg some ((Text.trim_space t).trans htrimmed)

end Errand
