/-
  Errand.Proofs.Task.Weaving — the tokens of a task put its sentence together.

  The sentence is laid out in gaps and wildcards (`laid_of_scan`). Weaving follows that
  layout from left to right: a gap becomes a literal if there is anything in it, a wildcard
  becomes its token (`Woven`). Each token comes from the text that stands at its place, so
  nothing of the sentence is lost, doubled or moved (`weave_source`).
-/

import Errand.Proofs.Wildcard.Spans
import Errand.Proofs.Task.Numbers
import Errand.Proofs.Task.Constraints

namespace Errand.Resolver

/-! ## Tokens in a row -/

/-- Tokens for a sentence from a place on: one for each wildcard, where that begins, and
    literals that are not empty for what stands between them. -/
inductive Woven (token : Occurrence → Token) : Nat → List Occurrence → List Token → Prop
  | done {place : Nat} : Woven token place [] []
  | literal {place : Nat} {t : Text} {ws : List Occurrence} {tokens : List Token} :
      t ≠ [] → Woven token (place + t.length) ws tokens → Woven token place ws (.literal t :: tokens)
  | wildcard {w : Occurrence} {ws : List Occurrence} {tokens : List Token} :
      Woven token w.stop ws tokens → Woven token w.start (w :: ws) (token w :: tokens)

variable {token : Occurrence → Token}

theorem literals_source (t : Text) : (literals t).flatMap Token.source = t := by
  unfold literals
  split
  · rename_i h
    exact (List.isEmpty_iff.mp h).symm
  · exact List.append_nil t

theorem Woven.of_literals {place : Nat} {t : Text} {ws : List Occurrence} {tokens : List Token}
    (h : Woven token (place + t.length) ws tokens) : Woven token place ws (literals t ++ tokens) := by
  unfold literals
  by_cases ht : t = []
  · subst ht
    exact h
  · rw [if_neg (by simpa using ht)]
    exact .literal ht h

/-- What is woven is the gap, the wildcard, and what is woven from the text behind. -/
theorem weave_next {place : Nat} {gap t : Text} {w : Occurrence} {ws : List Occurrence}
    (hstart : w.start = place + gap.length) (hstop : w.stop = w.start + w.text.length) :
    weave token place (gap ++ (w.text ++ t)) (w :: ws) = literals gap ++ token w :: weave token w.stop t ws := by
  have hgap : w.start - place = gap.length := by omega
  have hpast : w.stop - place = (gap ++ w.text).length := by
    rw [List.length_append]
    omega
  rw [weave, hgap, hpast, List.take_left, ← List.append_assoc, List.drop_left]

theorem woven_weave {place : Nat} {t : Text} {ws : List Occurrence} (h : Laid place t ws) :
    Woven token place ws (weave token place t ws) := by
  induction h with
  | @last place gap _ =>
    rw [weave, ← List.append_nil (literals gap)]
    exact .of_literals .done
  | next _ _ hstart hstop _ ih =>
    rw [weave_next hstart hstop]
    apply Woven.of_literals
    rw [← hstart]
    exact .wildcard ih

theorem weave_source (htoken : ∀ w, (token w).source = w.text) {place : Nat} {t : Text} {ws : List Occurrence}
    (h : Laid place t ws) : (weave token place t ws).flatMap Token.source = t := by
  induction h with
  | last => exact literals_source _
  | next _ _ hstart hstop _ ih =>
    rw [weave_next hstart hstop, List.flatMap_append, literals_source, List.flatMap_cons, htoken, ih]

/-! ## The tokens of a task -/

/-- Whatever a wildcard shows, its token comes from its text. -/
theorem tokenOf_source (store : Store) (groups : List Group) (bound : Bindings) (w : Occurrence) :
    (tokenOf store groups bound w).source = w.text := by
  unfold tokenOf
  split
  · rfl
  · split
    · split
      · rfl
      · rfl
    · rfl

variable {σ : Type} [RandomSource σ] {r r' : Resolver σ}

/-- The tokens of a task make up its sentence: one token for each wildcard written in it
    directly, in order, and literals that are not empty for the text between them. The
    wildcards stand one behind the other, each from its opening to its closing bracket, and
    no other opening bracket outside of them begins a marker. -/
theorem tokens_woven (store : Store) {sentence : Text} {t : Task}
    (h : (task store sentence).run r = (.ok t, r')) : ∃ (found : Found) (r₁ : Resolver σ) (bound : Bindings),
      (scan sentence).run r.next = (.ok found, r'.next) ∧
      (bindAll store (Group.ofOccurrences found.all) found.all).run r₁ = (.ok bound, r') ∧
      t.tokens.flatMap Token.source = sentence ∧
      Woven (tokenOf store (Group.ofOccurrences found.all) bound) 0 found.direct t.tokens ∧
      (∀ w ∈ found.direct, w.StandsIn sentence) ∧
      found.direct.Pairwise (fun w w' => w.stop ≤ w'.start) ∧
      ∀ i, sentence[i]? = some (.char '\x7b') → (∀ w ∈ found.direct, ¬(w.start ≤ i ∧ i < w.stop)) →
        Marker.read (sentence.drop (i + 1)) = .ok none := by
  obtain ⟨found, r₁, bound, hscan, hbound, rfl⟩ := task_scanned store h
  have hlaid := laid_of_scan hscan
  refine ⟨found, r₁, bound, hscan, hbound, ?_, woven_weave hlaid, ?_, hlaid.pairwise, ?_⟩
  · exact weave_source (tokenOf_source store _ bound) hlaid
  · exact hlaid.span List.length_nil
  · intro i hi hout
    apply hlaid.unread hi
    intro w hw
    rw [Nat.zero_add]
    exact hout w hw

/-- Brackets that begin or end nothing, a wildcard in the clause of another, and two
    wildcards side by side. -/
def strayErrand : Text :=
  "\x7b \x7bobject where name != \x7bplacement 1\x7d\x7d\x7bplacement 1\x7d \x7d \x7b\x7b1\x7d \x7bobject".text

theorem tokens_woven_stray : ∃ (t : Task) (r' : Resolver Script) (found : Found),
    (task pantry strayErrand).run (start pantry .moderate (⟨[]⟩ : Script) 1000) = (.ok t, r') ∧
    t.tokens.map Token.written = ["\x7b ".text, "\x7bobject where name != \x7bplacement 1\x7d\x7d => cup".text,
      "\x7bplacement 1\x7d => shelf".text, " \x7d \x7b\x7b1\x7d \x7bobject".text] ∧
    (scan strayErrand).run 1000 = (.ok found, r'.next) ∧
    t.tokens.flatMap Token.source = strayErrand ∧ ∀ w ∈ found.direct, w.StandsIn strayErrand := by
  have hwritten : ((task pantry strayErrand).run
      (start pantry .moderate (⟨[]⟩ : Script) 1000)).1.toOption.map (·.tokens.map Token.written) =
      some ["\x7b ".text, "\x7bobject where name != \x7bplacement 1\x7d\x7d => cup".text,
        "\x7bplacement 1\x7d => shelf".text, " \x7d \x7b\x7b1\x7d \x7bobject".text] := by decide +kernel
  obtain ⟨t, r', hrun, ht⟩ := ok_of_toOption hwritten
  obtain ⟨found, r₁, bound, hscan, -, hsource, -, hstands, -, -⟩ := tokens_woven pantry hrun
  exact ⟨t, r', found, hrun, ht, hscan, hsource, hstands⟩

end Errand.Resolver
