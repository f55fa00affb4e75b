/-
  Errand.Proofs.Wildcard.Covering — the markup of a text with a question mark put in behind the
  name of one of its markers.

  Nothing changes but the marker itself, those it is nested in, and the places of what stands
  behind (`Markup.Covered`, `read_covered`). The markers that change are still like those
  before, and so is what is nested in them (`Markup.Alike`).
-/

import Errand.Proofs.Wildcard.Naming
import Errand.Proofs.Wildcard.Numbering

namespace Errand

namespace Markup

/-! ## Names -/

/-- The markers in a text, nested ones too, with the places right behind their names. -/
def named : Markup → List (Marker × Nat)
  | done => []
  | fault _ => []
  | char _ rest => rest.named
  | marker m place clause metadata rest =>
    (m, place + m.nameStop) ::
      (clause.named.map (fun (n, k) => (n, place + m.clauseStart + k)) ++
        metadata.named.map (fun (n, k) => (n, place + m.metadataStart + k)) ++ rest.named)

/-! ## Alike and covered -/

/-- The same but for what is written in the markers, and for their places. -/
inductive Alike : Markup → Markup → Prop
  | done : Alike done done
  | fault (f : MarkerFault) : Alike (fault f) (fault f)
  | char {c : CodePoint} {rest rest' : Markup} : Alike rest rest' → Alike (char c rest) (char c rest')
  | marker {m m' : Marker} {place place' : Nat} {clause clause' metadata metadata' rest rest' : Markup} :
      m.Alike m' → Alike clause clause' → Alike metadata metadata' → Alike rest rest' →
      Alike (marker m place clause metadata rest) (marker m' place' clause' metadata' rest')

/-- One marker, over the place `k`, has become one character longer, and all behind it stands
    one character further on. -/
inductive Covered (k : Nat) : Markup → Markup → Prop
  | char {c : CodePoint} {rest rest' : Markup} : Covered k rest rest' → Covered k (char c rest) (char c rest')
  | behind {m : Marker} {place : Nat} {clause metadata rest rest' : Markup} : Covered k rest rest' →
      Covered k (marker m place clause metadata rest) (marker m place clause metadata rest')
  | marker {m m' : Marker} {place : Nat} {clause clause' metadata metadata' rest : Markup} :
      place < k → k < place + m.text.length → m'.text.length = m.text.length + 1 → m.Alike m' →
      Alike clause clause' → Alike metadata metadata' →
      Covered k (marker m place clause metadata rest) (marker m' place clause' metadata' (rest.moved 1))

theorem Alike.refl (m : Markup) : m.Alike m := by
  induction m with
  | done => exact .done
  | fault f => exact .fault f
  | char c rest ih => exact .char ih
  | marker m place clause metadata rest ihc ihd ihr => exact .marker (.refl m) ihc ihd ihr

theorem alike_moved (k : Nat) (m : Markup) : m.Alike (m.moved k) := by
  induction m with
  | done => exact .done
  | fault f => exact .fault f
  | char c rest ih => exact .char ih
  | marker m place clause metadata rest _ _ ih => exact .marker (.refl m) (.refl clause) (.refl metadata) ih

theorem Covered.alike {k : Nat} {m m' : Markup} (h : Covered k m m') : m.Alike m' := by
  induction h with
  | char _ ih => exact .char ih
  | behind _ ih => exact .marker (.refl _) (.refl _) (.refl _) ih
  | marker _ _ _ hm hc hd => exact .marker hm hc hd (alike_moved 1 _)

/-! ## Reading -/

theorem named_escaped (kind : MarkupKind) (c : CodePoint) (m : Markup) : (escaped kind c m).named = m.named := by
  unfold escaped
  split
  · rfl
  · rfl

theorem Covered.escaped {k : Nat} {m m' : Markup} (h : Covered k m m') (kind : MarkupKind) (c : CodePoint) :
    Covered k (escaped kind c m) (escaped kind c m') := by
  unfold Markup.escaped
  split
  · exact .char h
  · exact .char (.char h)

theorem eq_some_of_getD {o : Option Text} {t : Text} (h : o.getD [] = t) (ht : t ≠ []) : o = some t := by
  cases o with
  | none => exact absurd h.symm ht
  | some u => exact congrArg some h

/-- A marker that is read with the question mark inside. -/
theorem covered_of_questioned {kind : MarkupKind} {place k : Nat} {rest after : Text} {m n : Marker}
    {clause metadata : Option Text} (hread : Marker.read rest = .ok (some (n, after)))
    (h : n.Questioned rest after m k clause metadata)
    (hclause : (read .clause 0 (n.clause.getD [])).Alike (read .clause 0 (clause.getD [])))
    (hmetadata : (read .metadata 0 (n.metadata.getD [])).Alike (read .metadata 0 (metadata.getD []))) :
    ∃ z v, .char '\x7b' :: rest = z ++ v ∧ place + k = place + z.length ∧ NameEnd m z v ∧
      Covered (place + k) (marker n place (read .clause 0 (n.clause.getD [])) (read .metadata 0 (n.metadata.getD []))
        (read kind (place + n.text.length) after)) (read kind place (z ++ .char '?' :: v)) := by
  obtain ⟨z, v, n', rfl, hshorter, rfl, hplace, hread', halike, rfl, rfl⟩ := h
  refine ⟨.char '\x7b' :: z, v, rfl, rfl, hplace, ?_⟩
  have hlength := Marker.length_of_read hread
  have hlength' := Marker.length_of_read hread'
  simp only [List.length_append, List.length_cons] at hlength hlength'
  have hlonger : n'.text.length = n.text.length + 1 := by omega
  have hmoved : read kind (place + n'.text.length) after = (read kind (place + n.text.length) after).moved 1 := by
    rw [hlonger, ← Nat.add_assoc, read_moved]
  rw [List.cons_append, read_brace, hread']
  dsimp only
  rw [hmoved]
  exact .marker (by omega) (by omega) hlonger halike hclause hmetadata

/-- A marker in front of a text that is read with the question mark inside. -/
theorem covered_of_behind {kind : MarkupKind} {place : Nat} {rest z v : Text} {m n : Marker}
    (hread : Marker.read rest = .ok (some (n, z ++ v))) (hplace : NameEnd m z v)
    (hcovered : Covered (place + n.text.length + z.length) (read kind (place + n.text.length) (z ++ v))
      (read kind (place + n.text.length) (z ++ .char '?' :: v))) :
    ∃ y, .char '\x7b' :: rest = y ++ v ∧ place + n.text.length + z.length = place + y.length ∧ NameEnd m y v ∧
      Covered (place + n.text.length + z.length) (marker n place (read .clause 0 (n.clause.getD []))
        (read .metadata 0 (n.metadata.getD [])) (read kind (place + n.text.length) (z ++ v)))
        (read kind place (y ++ .char '?' :: v)) := by
  obtain ⟨p, rfl⟩ := (List.suffix_cons _ _).trans (Marker.read_suffix hread)
  rw [← List.append_assoc] at hread
  have hread' := Marker.read_behind_question (hplace.behind p) hread
  have hlength := congrArg List.length (Marker.text_of_rest hread)
  rw [List.length_cons, List.length_append, List.length_append] at hlength
  refine ⟨.char '\x7b' :: (p ++ z), by simp, ?_, hplace.behind (.char '\x7b' :: p), ?_⟩
  · rw [List.length_cons, List.length_append]
    omega
  · rw [List.cons_append, read_brace, hread']
    exact .behind hcovered

theorem read_covered {kind : MarkupKind} {place k : Nat} {t : Text} {m : Marker} (h : (m, k) ∈ (read kind place t).named)
    (hplain : m.obfuscated = false) : ∃ z v, t = z ++ v ∧ k = place + z.length ∧ NameEnd m z v ∧
      Covered k (read kind place t) (read kind place (z ++ .char '?' :: v)) := by
  fun_induction read kind place t generalizing k with
  | case1 => cases h
  | case2 place c rest ih =>
    obtain ⟨z, v, htext, rfl, hplace, hcovered⟩ := ih h
    rw [htext]
    refine ⟨.char '\\' :: z, v, rfl, by rw [List.length_cons]; omega, hplace.behind [.char '\\'], ?_⟩
    rw [List.cons_append, read_cons_plain (by decide) (Or.inl rfl), ← htext]
    exact .char hcovered
  | case3 kind place c rest hkind ih =>
    rw [named_escaped] at h
    obtain ⟨z, v, rfl, rfl, hplace, hcovered⟩ := ih h
    refine ⟨.char '\\' :: c :: z, v, rfl, by rw [List.length_cons, List.length_cons]; omega,
      hplace.behind [.char '\\', c], ?_⟩
    rw [List.cons_append, List.cons_append, read, if_neg hkind]
    exact hcovered.escaped kind c
  | case4 => cases h
  | case5 kind place rest hread _ ih =>
    obtain ⟨z, v, rfl, rfl, hplace, hcovered⟩ := ih h
    refine ⟨.char '\x7b' :: z, v, rfl, by rw [List.length_cons]; omega, hplace.behind [.char '\x7b'], ?_⟩
    rw [List.cons_append, read_brace, Marker.read_none_question hplace hread]
    exact .char hcovered
  | case6 kind place rest n after hread _ ihc ihd ihr =>
    rcases List.mem_cons.mp h with he | h
    · cases he
      exact covered_of_questioned hread (Marker.read_here hread hplain) (.refl _) (.refl _)
    rcases List.mem_append.mp h with h | h
    · rcases List.mem_append.mp h with h | h
      · obtain ⟨⟨_, k'⟩, hmem, he⟩ := List.mem_map.mp h
        cases he
        obtain ⟨z, v, htext, hk, hplace, hcovered⟩ := ihc hmem
        have hclause := eq_some_of_getD htext (List.append_ne_nil_of_left_ne_nil hplace.ne_nil v)
        rw [hk, Nat.zero_add, Nat.add_assoc]
        exact covered_of_questioned hread (Marker.read_in_clause hread hplace hclause) hcovered.alike (.refl _)
      · obtain ⟨⟨_, k'⟩, hmem, he⟩ := List.mem_map.mp h
        cases he
        obtain ⟨z, v, htext, hk, hplace, hcovered⟩ := ihd hmem
        have hmetadata := eq_some_of_getD htext (List.append_ne_nil_of_left_ne_nil hplace.ne_nil v)
        rw [hk, Nat.zero_add, Nat.add_assoc]
        exact covered_of_questioned hread (Marker.read_in_metadata hread hplace hmetadata) (.refl _) hcovered.alike
    · obtain ⟨z, v, rfl, rfl, hplace, hcovered⟩ := ihr h
      obtain ⟨y, htext, hlength, hplace', hcovered'⟩ := covered_of_behind hread hplace hcovered
      exact ⟨y, v, htext, hlength, hplace', hcovered'⟩
  | case7 kind place c rest hslash hbrace ih =>
    obtain ⟨z, v, rfl, rfl, hplace, hcovered⟩ := ih h
    refine ⟨c :: z, v, rfl, by rw [List.length_cons]; omega, hplace.behind [c], ?_⟩
    have hc : c ≠ '\\' := by
      intro e
      obtain ⟨d, more, hmore⟩ := List.exists_cons_of_ne_nil (List.append_ne_nil_of_left_ne_nil hplace.ne_nil v)
      exact hslash d more e hmore
    rw [List.cons_append, read_cons_plain hbrace (Or.inr hc)]
    exact .char hcovered

end Markup

/-! ## What is found -/

/-- What a wildcard asks for, wherever it is written and whatever shall be told of it. -/
def Occurrence.asked (w : Occurrence) : Occurrence := { w with obfuscated := false, start := 0, stop := 0, text := [] }

def Found.asked (f : Found) : Found := ⟨f.text, f.direct.map Occurrence.asked, f.all.map Occurrence.asked⟩

theorem Found.asked_eq_iff {f f' : Found} : f'.asked = f.asked ↔ f'.text = f.text ∧
    f'.direct.map Occurrence.asked = f.direct.map Occurrence.asked ∧
    f'.all.map Occurrence.asked = f.all.map Occurrence.asked := by
  rw [Found.asked, Found.asked, Found.mk.injEq]

/-- Runs of scans that end in the same way, having found wildcards that ask for the same. -/
def SameRun (x x' : Except MarkerFault Found × Int) : Prop := x'.1.map Found.asked = x.1.map Found.asked ∧ x'.2 = x.2

theorem SameRun.of_ok {found : Found} {n : Int} {x' : Except MarkerFault Found × Int} (h : SameRun (.ok found, n) x') :
    ∃ found', x' = (.ok found', n) ∧ found'.asked = found.asked := by
  obtain ⟨f | found', n'⟩ := x'
  · cases h.1
  · obtain ⟨hfound, hn⟩ := h
    exact ⟨found', Prod.ext rfl hn, Except.ok.inj hfound⟩

theorem SameRun.of_error {f : MarkerFault} {n : Int} {x' : Except MarkerFault Found × Int} (h : SameRun (.error f, n) x') :
    x' = (.error f, n) := by
  obtain ⟨f' | found', n'⟩ := x'
  · obtain ⟨hf, hn⟩ := h
    exact Prod.ext hf hn
  · cases h.1

theorem SameRun.ok {found found' : Found} (h : found'.asked = found.asked) (n : Int) :
    SameRun (.ok found, n) (.ok found', n) := ⟨congrArg Except.ok h, rfl⟩

/-- Scans that go on alike after scans alike. -/
theorem SameRun.bind {x x' : Scan Found} {f f' : Found → Scan Found} {n : Int} (hx : SameRun (x.run n) (x'.run n))
    (hf : ∀ found found' n₁, found'.asked = found.asked → SameRun ((f found).run n₁) ((f' found').run n₁)) :
    SameRun ((x >>= f).run n) ((x' >>= f').run n) := by
  rcases hrun : x.run n with ⟨fault | found, n₁⟩
  · rw [hrun] at hx
    rw [run_bind_error hrun, run_bind_error hx.of_error]
    exact ⟨rfl, rfl⟩
  · rw [hrun] at hx
    obtain ⟨found', hrun', hasked⟩ := hx.of_ok
    rw [run_bind_ok hrun, run_bind_ok hrun']
    exact hf found found' n₁ hasked

namespace Markup

/-- What is asked for depends on whether there is a clause and metadata, and on what they have become. -/
theorem occurrence_asked {m m' : Marker} (h : m.Alike m') (place place' : Nat) (nested : Bool) (n : Int) (clause metadata : Text) :
    (occurrence m' place' nested n clause metadata).asked = (occurrence m place nested n clause metadata).asked := by
  have hclause := h.clause
  have hmetadata := h.metadata
  unfold occurrence Occurrence.asked
  rw [h.name, h.subtype]
  congr 1
  · cases hc : m.clause with
    | none =>
      rw [hc, Option.isSome_none, Option.isSome_eq_false_iff, Option.isNone_iff_eq_none] at hclause
      rw [hclause]
    | some c =>
      rw [hc, Option.isSome_some, Option.isSome_iff_exists] at hclause
      obtain ⟨c', hc'⟩ := hclause
      rw [hc']
      cases Text.trim clause with
      | nil => rfl
      | cons d rest => rfl
  · cases hd : m.metadata with
    | none =>
      rw [hd, Option.isSome_none, Option.isSome_eq_false_iff, Option.isNone_iff_eq_none] at hmetadata
      rw [hmetadata]
    | some d =>
      rw [hd, Option.isSome_some, Option.isSome_iff_exists] at hmetadata
      obtain ⟨d', hd'⟩ := hmetadata
      rw [hd']
      rfl

/-- What is found at markers that are alike. -/
theorem asked_marker {m m' : Marker} (hm : m.Alike m') {c c' d d' r r' : Found} (hc : c'.asked = c.asked)
    (hd : d'.asked = d.asked) (hr : r'.asked = r.asked) (place place' : Nat) (nested : Bool) (k : Int) :
    let w := occurrence m place nested k c.text d.text
    let w' := occurrence m' place' nested k c'.text d'.text
    Found.asked ⟨reference w'.keycode ++ r'.text, w' :: r'.direct, w' :: c'.all ++ d'.all ++ r'.all⟩ =
      Found.asked ⟨reference w.keycode ++ r.text, w :: r.direct, w :: c.all ++ d.all ++ r.all⟩ := by
  obtain ⟨hctext, -, hcall⟩ := Found.asked_eq_iff.mp hc
  obtain ⟨hdtext, -, hdall⟩ := Found.asked_eq_iff.mp hd
  obtain ⟨hrtext, hrdirect, hrall⟩ := Found.asked_eq_iff.mp hr
  have hasked := occurrence_asked hm place place' nested k c.text d.text
  have hkeycode : (occurrence m' place' nested k c.text d.text).keycode = (occurrence m place nested k c.text d.text).keycode :=
    congrArg (fun name => keycode name k) hm.name
  rw [hctext, hdtext]
  dsimp only
  rw [hkeycode]
  refine Found.asked_eq_iff.mpr ⟨congrArg (reference _ ++ ·) hrtext, ?_, ?_⟩
  · rw [List.map_cons, List.map_cons, hasked, hrdirect]
  · simp only [List.map_cons, List.map_append, hasked, hcall, hdall, hrall]

/-- Markups that are alike are scanned alike. -/
theorem run_alike {m m' : Markup} (h : m.Alike m') (nested : Bool) (n : Int) :
    SameRun ((m.number nested).run n) ((m'.number nested).run n) := by
  induction h generalizing nested n with
  | done => exact ⟨rfl, rfl⟩
  | fault f => exact ⟨rfl, rfl⟩
  | @char c rest rest' _ ih =>
    rw [number, number]
    refine (ih nested n).bind fun found found' n₁ hasked => ?_
    obtain ⟨htext, hdirect, hall⟩ := Found.asked_eq_iff.mp hasked
    have hfound : Found.asked ⟨c :: found'.text, found'.direct, found'.all⟩ =
        Found.asked ⟨c :: found.text, found.direct, found.all⟩ :=
      Found.asked_eq_iff.mpr ⟨congrArg (List.cons c) htext, hdirect, hall⟩
    exact .ok hfound n₁
  | @marker m m' place place' _ _ _ _ _ _ hm _ _ _ ihc ihd ihr =>
    have hnumber : numberOf m' = numberOf m := by
      rw [numberOf, numberOf, hm.number]
    rw [number, number, hnumber]
    obtain ⟨k, n₁, hk⟩ : ∃ k n₁, (numberOf m).run n = (.ok k, n₁) := by
      rcases hn : m.number with _ | k
      · exact ⟨_, _, run_numberOf_none hn n⟩
      · exact ⟨_, _, run_numberOf_some hn n⟩
    rw [run_bind_ok hk, run_bind_ok hk]
    refine (ihc true n₁).bind fun c c' n₂ hc => ?_
    refine (ihd true n₂).bind fun d d' n₃ hd => ?_
    refine (ihr nested n₃).bind fun r r' n₄ hr => ?_
    exact .ok (asked_marker hm hc hd hr place place' nested k) n₄

/-- Scans that end well in markups that are alike take the same numbers. -/
theorem next_of_alike {m m' : Markup} (h : m.Alike m') {nested : Bool} {n n₁ n₁' : Int} {found found' : Found}
    (hrun : (m.number nested).run n = (.ok found, n₁)) (hrun' : (m'.number nested).run n = (.ok found', n₁')) : n₁' = n₁ := by
  have hsame := (run_alike h nested n).2
  rwa [hrun, hrun'] at hsame

/-- Of the wildcards written in a text directly, one reaches over the place; those behind it
    stand one character further on. -/
theorem run_covered {k : Nat} {m m' : Markup} (h : Covered k m m') {n n₁ n₁' : Int} {found found' : Found}
    (hrun : (m.number false).run n = (.ok found, n₁)) (hrun' : (m'.number false).run n = (.ok found', n₁')) :
    ∃ front w w' back, found.direct = front ++ w :: back ∧ found'.direct = front ++ w' :: back.map (·.moved 1) ∧
      w.start < k ∧ k < w.stop ∧ w'.start = w.start ∧ w'.stop = w.stop + 1 := by
  induction h generalizing n n₁ n₁' found found' with
  | char _ ih =>
    obtain ⟨r, n₂, hr, hpure⟩ := run_bind_eq_ok.mp hrun
    obtain ⟨r', n₂', hr', hpure'⟩ := run_bind_eq_ok.mp hrun'
    obtain ⟨rfl, -⟩ := run_pure_eq_ok.mp hpure
    obtain ⟨rfl, -⟩ := run_pure_eq_ok.mp hpure'
    obtain ⟨front, w, w', back, hdirect, hdirect', hplace⟩ := ih hr hr'
    exact ⟨front, w, w', back, hdirect, hdirect', hplace⟩
  | behind _ ih =>
    obtain ⟨number, n₂, c, n₃, d, n₄, r, hm, hc, hd, hr, rfl⟩ := run_marker_ok hrun
    obtain ⟨number', n₂', c', n₃', d', n₄', r', hm', hc', hd', hr', rfl⟩ := run_marker_ok hrun'
    rw [hm] at hm'
    cases hm'
    rw [hc] at hc'
    cases hc'
    rw [hd] at hd'
    cases hd'
    obtain ⟨front, w, w', back, hdirect, hdirect', hplace⟩ := ih hr hr'
    exact ⟨_ :: front, w, w', back, congrArg (List.cons _) hdirect, congrArg (List.cons _) hdirect', hplace⟩
  | @marker m m' place _ _ _ _ rest hstart hstop hlonger halike hclause hmetadata =>
    obtain ⟨number, n₂, c, n₃, d, n₄, r, hm, hc, hd, hr, rfl⟩ := run_marker_ok hrun
    obtain ⟨number', n₂', c', n₃', d', n₄', r', hm', hc', hd', hr', rfl⟩ := run_marker_ok hrun'
    have hnumber : numberOf m' = numberOf m := by
      rw [numberOf, numberOf, halike.number]
    rw [hnumber, hm] at hm'
    cases hm'
    have hn₃ := next_of_alike hclause hc hc'
    rw [hn₃] at hd'
    have hn₄ := next_of_alike hmetadata hd hd'
    rw [hn₄, run_moved, hr] at hr'
    cases hr'
    refine ⟨[], _, _, r.direct, rfl, rfl, hstart, hstop, rfl, ?_⟩
    show place + m'.text.length = place + m.text.length + 1
    rw [hlonger, Nat.add_assoc]

/-- The wildcards that a scan finds are those of the names, in the same order. -/
theorem named_of_run {m : Markup} {nested : Bool} {n n' : Int} {found : Found} (h : (m.number nested).run n = (.ok found, n')) :
    m.named.map (fun (m, _) => (m.text, m.obfuscated)) = found.all.map fun w => (w.text, w.obfuscated) := by
  induction m generalizing nested n n' found with
  | done =>
    obtain ⟨rfl, -⟩ := run_pure_eq_ok.mp h
    rfl
  | fault f => cases h
  | char c rest ih =>
    obtain ⟨r, n₁, hr, h⟩ := run_bind_eq_ok.mp h
    obtain ⟨rfl, -⟩ := run_pure_eq_ok.mp h
    show rest.named.map _ = r.all.map _
    exact ih hr
  | marker m place clause metadata rest ihc ihd ihr =>
    obtain ⟨k, n₁, c, n₂, d, n₃, r, -, hc, hd, hr, rfl⟩ := run_marker_ok h
    simp only [named, List.map_cons, List.map_append, List.map_map, Function.comp_def, ihc hc, ihd hd, ihr hr]
    rfl

/-- What is written in a text directly is nested in it only if the text itself is nested. -/
theorem direct_nested {m : Markup} {nested : Bool} {n n' : Int} {found : Found} (h : (m.number nested).run n = (.ok found, n')) :
    ∀ w ∈ found.direct, w.nested = nested := by
  induction m generalizing n n' found with
  | done =>
    obtain ⟨rfl, -⟩ := run_pure_eq_ok.mp h
    intro w hw
    cases hw
  | fault f => cases h
  | char c rest ih =>
    obtain ⟨r, n₁, hr, h⟩ := run_bind_eq_ok.mp h
    obtain ⟨rfl, -⟩ := run_pure_eq_ok.mp h
    exact fun w hw => ih hr w hw
  | marker m place clause metadata rest _ _ ih =>
    obtain ⟨k, n₁, c, n₂, d, n₃, r, -, -, -, hr, rfl⟩ := run_marker_ok h
    exact List.forall_mem_cons.mpr ⟨rfl, ih hr⟩

end Markup

end Errand
