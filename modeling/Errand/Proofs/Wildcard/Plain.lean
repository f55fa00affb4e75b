/-
  Errand.Proofs.Wildcard.Plain — what stands around markers.

  Characters that begin no marker come out of a scan as they went in (`run_behind`). How
  many of them stand in front of a marker matters for its place alone: what is found in a
  text is found in it behind another text as well, further on (`run_scan_behind`).
-/

import Errand.Proofs.Run
import Errand.Wildcard.Occurrence

namespace Errand

/-! ## Characters in front -/

namespace Markup

/-- Some characters and the markup behind them. -/
def behind (t : Text) (m : Markup) : Markup := t.foldr .char m

theorem behind_cons (c : CodePoint) (t : Text) (m : Markup) : behind (c :: t) m = .char c (behind t m) := rfl

/-- A scan passes over them. -/
theorem run_behind (t : Text) (m : Markup) (nested : Bool) (n : Int) : ((behind t m).number nested).run n =
    let (outcome, n') := (m.number nested).run n
    (outcome.map fun f => { f with text := t ++ f.text }, n') := by
  induction t with
  | nil =>
    show (m.number nested).run n = _
    rcases (m.number nested).run n with ⟨f | found, n'⟩
    · rfl
    · rfl
  | cons c t ih =>
    rw [behind_cons, number]
    rcases hrun : (m.number nested).run n with ⟨f | found, n'⟩
    · rw [hrun] at ih
      exact run_bind_error ih
    · rw [hrun] at ih
      exact run_bind_ok ih

/-- The scan of a text in which no marker stands. -/
theorem run_plain (t : Text) (nested : Bool) (n : Int) :
    ((behind t .done).number nested).run n = (.ok ⟨t, [], []⟩, n) := by
  have hdone : (number nested done).run n = (.ok ⟨[], [], []⟩, n) := rfl
  rw [run_behind, hdone]
  simp only [Except.map, List.append_nil]

/-- A clause that becomes blank is none. -/
theorem occurrence_clause {m : Marker} {clause c : Text} (hm : m.clause = some c) (hclause : Text.trim clause ≠ [])
    (place : Nat) (nested : Bool) (number : Int) (metadata : Text) :
    (occurrence m place nested number clause metadata).clause = some (Text.trim clause) := by
  unfold occurrence
  rw [hm]
  cases h : Text.trim clause with
  | nil => exact absurd h hclause
  | cons d rest => rfl

/-- The scan of a marker, given what comes of the two texts in it. -/
theorem run_marker {m : Marker} {clause metadata : Markup} {k n n₁ n₂ n₃ : Int} {c d : Found} {nested : Bool}
    (hm : (numberOf m).run n = (.ok k, n₁)) (hc : (clause.number true).run n₁ = (.ok c, n₂))
    (hd : (metadata.number true).run n₂ = (.ok d, n₃)) (place : Nat) (rest : Markup) :
    ((marker m place clause metadata rest).number nested).run n =
      let w := occurrence m place nested k c.text d.text
      let (outcome, n') := (rest.number nested).run n₃
      (outcome.map fun r => ⟨reference w.keycode ++ r.text, w :: r.direct, w :: c.all ++ d.all ++ r.all⟩, n') := by
  rw [number, run_bind_ok hm, run_bind_ok hc, run_bind_ok hd]
  rcases hr : (rest.number nested).run n₃ with ⟨f | r, n₄⟩
  · rw [run_bind_error hr]
    rfl
  · rw [run_bind_ok hr]
    rfl

/-- What a marker has come to if its scan ends well. -/
theorem run_marker_ok {m : Marker} {place : Nat} {clause metadata rest : Markup} {nested : Bool} {n n' : Int}
    {found : Found} (h : ((marker m place clause metadata rest).number nested).run n = (.ok found, n')) :
    ∃ k n₁ c n₂ d n₃ r, (numberOf m).run n = (.ok k, n₁) ∧ (clause.number true).run n₁ = (.ok c, n₂) ∧
      (metadata.number true).run n₂ = (.ok d, n₃) ∧ (rest.number nested).run n₃ = (.ok r, n') ∧
      found = ⟨reference (keycode m.name k) ++ r.text, occurrence m place nested k c.text d.text :: r.direct,
        occurrence m place nested k c.text d.text :: c.all ++ d.all ++ r.all⟩ := by
  obtain ⟨k, n₁, hk, h⟩ := run_bind_eq_ok.mp h
  obtain ⟨c, n₂, hc, h⟩ := run_bind_eq_ok.mp h
  obtain ⟨d, n₃, hd, h⟩ := run_bind_eq_ok.mp h
  obtain ⟨r, n₄, hr, h⟩ := run_bind_eq_ok.mp h
  obtain ⟨rfl, rfl⟩ := run_pure_eq_ok.mp h
  exact ⟨k, n₁, c, n₂, d, n₃, r, hk, hc, hd, hr, rfl⟩

/-! ## Texts without markers -/

theorem run_read_nil (kind : MarkupKind) (place : Nat) (nested : Bool) (n : Int) :
    ((read kind place []).number nested).run n = (.ok ⟨[], [], []⟩, n) := by
  rw [read]
  rfl

/-- What an opening bracket may be the beginning of. -/
theorem read_brace (kind : MarkupKind) (place : Nat) (rest : Text) :
    read kind place (.char '\x7b' :: rest) =
      match Marker.read rest with
      | .error f => .fault f
      | .ok none => .char (.char '\x7b') (read kind (place + 1) rest)
      | .ok (some (m, after)) =>
        .marker m place (read .clause 0 (m.clause.getD [])) (read .metadata 0 (m.metadata.getD []))
          (read kind (place + m.text.length) after) := by
  rw [read, if_pos rfl]
  · split
    · rename_i h
      rw [h]
    · rename_i h
      rw [h]
    · rename_i h
      rw [h]
  · intro c rest e
    cases e

theorem read_cons_plain {kind : MarkupKind} {c : CodePoint} (hbrace : c ≠ '\x7b')
    (hslash : kind = .sentence ∨ c ≠ '\\') (place : Nat) (rest : Text) :
    read kind place (c :: rest) = .char c (read kind (place + 1) rest) := by
  rw [read.eq_def]
  split
  · rename_i h
    cases h
  · rename_i d more h
    cases h
    have hkind : kind = .sentence := hslash.resolve_right fun hne => hne rfl
    rw [if_pos hkind]
  · rename_i h
    cases h
    rw [if_neg hbrace]

/-- Without an opening bracket there is no marker, and in a sentence a backslash is like any
    other character. -/
theorem read_plain {kind : MarkupKind} {t : Text} (hbrace : .char '\x7b' ∉ t)
    (hslash : kind = .sentence ∨ .char '\\' ∉ t) (place : Nat) (u : Text) :
    read kind place (t ++ u) = behind t (read kind (place + t.length) u) := by
  induction t generalizing place with
  | nil => rfl
  | cons c t ih =>
    rw [List.mem_cons, not_or] at hbrace
    have hc : kind = .sentence ∨ c ≠ '\\' := hslash.imp_right fun hne e => hne (e ▸ List.mem_cons_self)
    have ht : kind = .sentence ∨ .char '\\' ∉ t := hslash.imp_right fun hne hm => hne (List.mem_cons_of_mem _ hm)
    rw [List.cons_append, read_cons_plain (Ne.symm hbrace.1) hc, ih hbrace.2 ht, behind_cons, List.length_cons,
      Nat.add_right_comm, Nat.add_assoc]

/-- In a clause a backslash stays where it is. -/
theorem read_clause_plain {t : Text} (hbrace : .char '\x7b' ∉ t) (place : Nat) :
    read .clause place t = behind t .done := by
  generalize hkind : MarkupKind.clause = kind
  fun_induction read kind place t with
  | case1 => rfl
  | case2 => cases hkind
  | case3 kind place c rest _ ih =>
    subst hkind
    rw [List.mem_cons, List.mem_cons, not_or, not_or] at hbrace
    rw [ih hbrace.2.2 rfl]
    rfl
  | case4 => exact absurd List.mem_cons_self hbrace
  | case5 => exact absurd List.mem_cons_self hbrace
  | case6 => exact absurd List.mem_cons_self hbrace
  | case7 kind place c rest _ _ ih =>
    rw [ih (fun hm => hbrace (List.mem_cons_of_mem _ hm)) hkind]
    rfl

end Markup

/-! ## Further on -/

/-- The occurrence in a text that has some more characters in front. One that is nested keeps
    its place, which is one in the text of the other. -/
def Occurrence.moved (k : Nat) (w : Occurrence) : Occurrence :=
  if w.nested then w else { w with start := w.start + k, stop := w.stop + k }

def Found.moved (k : Nat) (f : Found) : Found := ⟨f.text, f.direct.map (·.moved k), f.all.map (·.moved k)⟩

namespace Markup

def moved (k : Nat) : Markup → Markup
  | done => done
  | fault f => fault f
  | char c rest => char c (rest.moved k)
  | marker m place clause metadata rest => marker m (place + k) clause metadata (rest.moved k)

theorem read_moved (k : Nat) (kind : MarkupKind) (place : Nat) (t : Text) :
    read kind (place + k) t = (read kind place t).moved k := by
  fun_induction read kind place t with
  | case1 => rw [read]; rfl
  | case2 place c rest ih =>
    rw [read, if_pos rfl, Nat.add_right_comm, ih]
    rfl
  | case3 kind place c rest hkind ih =>
    rw [read, if_neg hkind, Nat.add_right_comm, ih, escaped, escaped]
    split
    · rfl
    · rfl
  | case4 kind place rest f hr _ =>
    rw [read_brace, hr]
    rfl
  | case5 kind place rest hr _ ih =>
    rw [read_brace, hr]
    show char _ (read kind (place + k + 1) rest) = _
    rw [Nat.add_right_comm, ih]
    rfl
  | case6 kind place rest m after hr _ _ _ ih =>
    rw [read_brace, hr]
    show marker m (place + k) _ _ (read kind (place + k + m.text.length) after) = _
    rw [Nat.add_right_comm, ih]
    rfl
  | case7 kind place c rest hslash hbrace ih =>
    rw [read, if_neg hbrace, Nat.add_right_comm, ih]
    · rfl
    · exact hslash

/-- What is found in something nested is nested. -/
theorem nested_of_run {m : Markup} {n n' : Int} {found : Found} (h : (m.number true).run n = (.ok found, n')) :
    ∀ w ∈ found.all, w.nested = true := by
  induction m generalizing n n' found with
  | done =>
    obtain ⟨rfl, -⟩ := run_pure_eq_ok.mp h
    intro w hw
    cases hw
  | fault f => cases h
  | char c rest ih =>
    obtain ⟨r, n₁, hr, h⟩ := run_bind_eq_ok.mp h
    obtain ⟨rfl, -⟩ := run_pure_eq_ok.mp h
    exact fun w hw => ih hr w hw
  | marker m place clause metadata rest ihc ihd ihr =>
    obtain ⟨k, n₁, c, n₂, d, n₃, r, -, hc, hd, hr, rfl⟩ := run_marker_ok h
    refine List.forall_mem_cons.mpr ⟨rfl, ?_⟩
    intro w hw
    rcases List.mem_append.mp hw with hw | hw
    · rcases List.mem_append.mp hw with hw | hw
      · exact ihc hc w hw
      · exact ihd hd w hw
    · exact ihr hr w hw

theorem occurrence_moved (m : Marker) (place k : Nat) (n : Int) (clause metadata : Text) :
    (occurrence m place false n clause metadata).moved k = occurrence m (place + k) false n clause metadata := by
  simp only [Occurrence.moved, occurrence, Nat.add_right_comm place k]
  rfl

/-- A scan goes on behind a text as it would begin. -/
theorem run_moved (k : Nat) (m : Markup) (n : Int) : ((m.moved k).number false).run n =
    let (outcome, n') := (m.number false).run n
    (outcome.map (Found.moved k), n') := by
  induction m generalizing n with
  | done => rfl
  | fault f => rfl
  | char c rest ih =>
    rw [moved, number, number]
    have hrest := ih n
    rcases hrun : (rest.number false).run n with ⟨f | found, n'⟩
    · rw [hrun] at hrest
      rw [run_bind_error hrest, run_bind_error hrun]
      rfl
    · rw [hrun] at hrest
      rw [run_bind_ok hrest, run_bind_ok hrun]
      rfl
  | marker m place clause metadata rest _ _ ih =>
    rw [moved, number, number]
    rcases hm : (numberOf m).run n with ⟨f | number, n₁⟩
    · rw [run_bind_error hm, run_bind_error hm]
      rfl
    rw [run_bind_ok hm, run_bind_ok hm]
    rcases hc : (clause.number true).run n₁ with ⟨f | c, n₂⟩
    · rw [run_bind_error hc, run_bind_error hc]
      rfl
    rw [run_bind_ok hc, run_bind_ok hc]
    rcases hd : (metadata.number true).run n₂ with ⟨f | d, n₃⟩
    · rw [run_bind_error hd, run_bind_error hd]
      rfl
    rw [run_bind_ok hd, run_bind_ok hd]
    have hrest := ih n₃
    rcases hr : (rest.number false).run n₃ with ⟨f | r, n₄⟩
    · rw [hr] at hrest
      rw [run_bind_error hrest, run_bind_error hr]
      rfl
    rw [hr] at hrest
    rw [run_bind_ok hrest, run_bind_ok hr]
    -- what is nested keeps its place, and the marker itself does not
    have hkept : ∀ l : List Occurrence, (∀ w ∈ l, w.nested = true) → l.map (·.moved k) = l := fun l hl =>
      (List.map_congr_left fun w hw => if_pos (hl w hw)).trans (List.map_id l)
    have hall := hkept c.all (nested_of_run hc)
    have hall' := hkept d.all (nested_of_run hd)
    rw [← occurrence_moved]
    show (Except.ok _, n₄) = (Except.ok (Found.moved k _), n₄)
    have hkeycode : (Occurrence.moved k (occurrence m place false number c.text d.text)).keycode =
        (occurrence m place false number c.text d.text).keycode := by
      rw [occurrence_moved]
      rfl
    simp only [Found.moved, List.map_cons, List.map_append, hall, hall', hkeycode, List.cons_append]

end Markup

/-- Behind a text without an opening bracket the same is found. -/
theorem run_scan_behind {p : Text} (hp : .char '\x7b' ∉ p) (q : Text) (n : Int) : (scan (p ++ q)).run n =
    let (outcome, n') := (scan q).run n
    (outcome.map fun f => { f.moved p.length with text := p ++ f.text }, n') := by
  rw [scan, Markup.read_plain hp (Or.inl rfl), Markup.read_moved, Markup.run_behind, Markup.run_moved, scan]
  rcases ((Markup.read .sentence 0 q).number false).run n with ⟨f | found, n'⟩
  · rfl
  · rfl

end Errand
