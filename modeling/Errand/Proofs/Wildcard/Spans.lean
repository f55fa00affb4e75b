/-
  Errand.Proofs.Wildcard.Spans — where the wildcards of a sentence stand.

  A scan cuts a sentence into gaps and markers (`Laid`): in front of each marker and behind
  the last one there may be some text, and no opening bracket in such a gap begins anything
  that can be read as a marker. Everything about places comes from this: a wildcard begins
  and ends with its brackets, its text is what stands at its place (`Laid.span`), one
  wildcard ends before the next one begins (`Laid.pairwise`), and no marker was overlooked
  (`Laid.unread`).
-/

import Errand.Proofs.Text.Readers
import Errand.Proofs.Wildcard.Plain
import Errand.Wildcard.Markup

namespace Errand

/-! ## Gaps and markers -/

/-- A text in which no marker begins, given what follows it. -/
def IsGap (gap rest : Text) : Prop :=
  ∀ front behind, gap = front ++ .char '\x7b' :: behind → Marker.read (behind ++ rest) = .ok none

/-- A text from bracket to bracket. -/
def IsBracketed (t : Text) : Prop := ∃ inside, t = .char '\x7b' :: (inside ++ [.char '\x7d'])

/-- A text that begins some characters into a sentence, with the wildcards in it and the
    gaps between them. -/
inductive Laid : Nat → Text → List Occurrence → Prop
  | last {place : Nat} {gap : Text} : IsGap gap [] → Laid place gap []
  | next {place : Nat} {gap t : Text} {w : Occurrence} {ws : List Occurrence} :
      IsGap gap (w.text ++ t) → IsBracketed w.text → w.start = place + gap.length →
      w.stop = w.start + w.text.length → Laid w.stop t ws → Laid place (gap ++ (w.text ++ t)) (w :: ws)

theorem isGap_nil (rest : Text) : IsGap [] rest := by
  intro front behind h
  simp at h

theorem IsGap.cons {gap rest : Text} {c : CodePoint} (h : IsGap gap rest)
    (hc : c = '\x7b' → Marker.read (gap ++ rest) = .ok none) : IsGap (c :: gap) rest := by
  intro front behind he
  rcases front with _ | ⟨d, front⟩
  · rw [List.nil_append, List.cons.injEq] at he
    obtain ⟨rfl, rfl⟩ := he
    exact hc rfl
  · rw [List.cons_append, List.cons.injEq] at he
    exact h front behind he.2

/-- One more character of a gap. -/
theorem Laid.cons {place : Nat} {t : Text} {ws : List Occurrence} {c : CodePoint} (h : Laid (place + 1) t ws)
    (hc : c = '\x7b' → Marker.read t = .ok none) : Laid place (c :: t) ws := by
  cases h with
  | last hgap => exact .last (hgap.cons (by simpa using hc))
  | @next _ gap t w ws hgap hbracketed hstart hstop hrest =>
    refine @Laid.next place (c :: gap) t w ws (hgap.cons hc) hbracketed ?_ hstop hrest
    rw [hstart, List.length_cons]
    omega

/-! ## The scan -/

/-- What is read as a marker is the text between two brackets, and what follows it. -/
theorem Marker.text_of_read {t after : Text} {m : Marker} (h : Marker.read t = .ok (some (m, after))) :
    IsBracketed m.text ∧ .char '\x7b' :: t = m.text ++ after := by
  obtain ⟨_, _, _, -, -, -, rfl⟩ := Marker.read_eq_ok_iff.mp h
  obtain ⟨inside, rfl⟩ := Marker.read_suffix h
  have htext : (inside ++ .char '\x7d' :: after).take ((inside ++ .char '\x7d' :: after).length - after.length) =
      inside ++ [.char '\x7d'] := by
    rw [List.append_cons]
    apply List.take_left'
    simp only [List.length_append, List.length_cons, List.length_nil]
    omega
  refine ⟨⟨inside, congrArg (List.cons _) htext⟩, ?_⟩
  show _ = .char '\x7b' :: (List.take _ _ ++ after)
  rw [htext, List.append_assoc]
  rfl

theorem Markup.laid_of_run {place : Nat} {t : Text} {nested : Bool} {n n' : Int} {found : Found}
    (h : ((read .sentence place t).number nested).run n = (.ok found, n')) : Laid place t found.direct := by
  generalize hkind : MarkupKind.sentence = kind at h
  fun_induction read kind place t generalizing n n' found with
  | case1 =>
    obtain ⟨rfl, -⟩ := run_pure_eq_ok.mp h
    exact .last (isGap_nil [])
  | case2 place c rest ih =>
    obtain ⟨r, n₁, hr, h⟩ := run_bind_eq_ok.mp h
    obtain ⟨rfl, -⟩ := run_pure_eq_ok.mp h
    exact (ih hkind hr).cons (fun e => absurd e (by decide))
  | case3 kind place c rest hne => exact absurd hkind.symm hne
  | case4 => cases h
  | case5 kind place rest hread _ ih =>
    obtain ⟨r, n₁, hr, h⟩ := run_bind_eq_ok.mp h
    obtain ⟨rfl, -⟩ := run_pure_eq_ok.mp h
    exact (ih hkind hr).cons (fun _ => hread)
  | case6 kind place rest m after hread _ _ _ ih =>
    obtain ⟨k, n₁, c, n₂, d, n₃, r, -, -, -, hr, rfl⟩ := run_marker_ok h
    obtain ⟨hbracketed, htext⟩ := Marker.text_of_read hread
    rw [htext]
    exact @Laid.next place [] after (occurrence m place nested k c.text d.text) r.direct (isGap_nil _) hbracketed rfl rfl
      (ih hkind hr)
  | case7 kind place c rest _ hbrace ih =>
    obtain ⟨r, n₁, hr, h⟩ := run_bind_eq_ok.mp h
    obtain ⟨rfl, -⟩ := run_pure_eq_ok.mp h
    exact (ih hkind hr).cons (fun e => absurd e hbrace)

/-- The wildcards of a sentence with the gaps between them make up the sentence. -/
theorem laid_of_scan {t : Text} {n n' : Int} {found : Found} (h : (scan t).run n = (.ok found, n')) :
    Laid 0 t found.direct :=
  Markup.laid_of_run h

/-! ## Places -/

/-- A wildcard stands somewhere in a sentence: from bracket to bracket, its text is what
    stands there. -/
structure Occurrence.StandsIn (w : Occurrence) (sentence : Text) : Prop where
  nonempty : w.start < w.stop
  inside : w.stop ≤ sentence.length
  text_eq : w.text = (sentence.take w.stop).drop w.start
  opens : w.text.head? = some (.char '\x7b')
  closes : w.text.getLast? = some (.char '\x7d')

namespace Laid
variable {place : Nat} {t : Text} {ws : List Occurrence}

theorem place_le (h : Laid place t ws) : ∀ w ∈ ws, place ≤ w.start := by
  induction h with
  | last => simp
  | next _ _ hstart hstop _ ih =>
    intro w hw
    rcases List.mem_cons.mp hw with rfl | hw
    · omega
    · have := ih w hw
      omega

/-- Each wildcard stands in any sentence that has the text at its place. -/
theorem span (h : Laid place t ws) {before : Text} (hbefore : before.length = place) :
    ∀ w ∈ ws, w.StandsIn (before ++ t) := by
  induction h generalizing before with
  | last => simp
  | @next place gap t w ws _ hbracketed hstart hstop _ ih =>
    have hlength : (before ++ gap).length = w.start := by
      rw [List.length_append, hbefore, hstart]
    have hwhole : before ++ (gap ++ (w.text ++ t)) = (before ++ gap) ++ w.text ++ t := by
      simp only [List.append_assoc]
    have hlength' : ((before ++ gap) ++ w.text).length = w.stop := by
      rw [List.length_append, hlength, hstop]
    rw [hwhole]
    refine List.forall_mem_cons.mpr ⟨?_, ih hlength'⟩
    obtain ⟨inside, hinside⟩ := hbracketed
    refine ⟨?_, ?_, ?_, ?_, ?_⟩
    · have hpos : 0 < w.text.length := by
        rw [hinside]
        simp
      omega
    · rw [List.length_append]
      omega
    · rw [← hlength', List.take_left, ← hlength, List.drop_left]
    · rw [hinside]
      rfl
    · rw [hinside, ← List.cons_append, List.getLast?_concat]

/-- One wildcard ends before the next one begins. -/
theorem pairwise (h : Laid place t ws) : ws.Pairwise fun w w' => w.stop ≤ w'.start := by
  induction h with
  | last => exact .nil
  | next _ _ _ _ hrest ih => exact .cons (fun w' hw' => hrest.place_le w' hw') ih

/-- An opening bracket outside of all wildcards begins no marker. -/
theorem unread (h : Laid place t ws) {i : Nat} (hi : t[i]? = some (.char '\x7b'))
    (hout : ∀ w ∈ ws, ¬(w.start ≤ place + i ∧ place + i < w.stop)) : Marker.read (t.drop (i + 1)) = .ok none := by
  -- in a gap the bracket divides it, with the rest of the text behind
  have hsplit {gap rest : Text} (hgap : IsGap gap rest) {i : Nat} (hlt : i < gap.length)
      (hi : gap[i]? = some (.char '\x7b')) : Marker.read ((gap ++ rest).drop (i + 1)) = .ok none := by
    rw [List.getElem?_eq_getElem hlt, Option.some.injEq] at hi
    have he : gap = gap.take i ++ .char '\x7b' :: gap.drop (i + 1) := by
      rw [← hi, List.getElem_cons_drop, List.take_append_drop]
    rw [List.drop_append_of_le_length (by omega)]
    exact hgap _ _ he
  induction h generalizing i with
  | @last place gap hgap =>
    have hlt : i < gap.length := (List.getElem?_eq_some_iff.mp hi).1
    have hread := hsplit hgap hlt hi
    rwa [List.append_nil] at hread
  | @next place gap t w ws hgap _ hstart hstop _ ih =>
    by_cases hlt : i < gap.length
    · rw [List.getElem?_append_left hlt] at hi
      exact hsplit hgap hlt hi
    · have hbehind : w.stop ≤ place + i := by
        have := hout w List.mem_cons_self
        omega
      obtain ⟨j, rfl⟩ : ∃ j, i = (gap ++ w.text).length + j := by
        refine ⟨i - (gap ++ w.text).length, ?_⟩
        rw [List.length_append]
        omega
      have hplace : place + ((gap ++ w.text).length + j) = w.stop + j := by
        rw [List.length_append]
        omega
      rw [← List.append_assoc, List.getElem?_append_right (Nat.le_add_right _ _), Nat.add_sub_cancel_left] at hi
      rw [← List.append_assoc, Nat.add_assoc, List.drop_length_add_append]
      refine ih hi ?_
      intro w' hw'
      rw [← hplace]
      exact hout w' (List.mem_cons_of_mem _ hw')

end Laid

end Errand
