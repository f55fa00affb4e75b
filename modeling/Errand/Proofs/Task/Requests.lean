/-
  Errand.Proofs.Task.Requests — what comes of requests for tasks.

  A request comes to a task, or to none, or to a fault of one of its attempts that is not
  tried again (`tryTask_error`). Requests leave the grammars and the entities as they are, so
  what is said of one holds of all that follow one another (`answers_end`):
  - whatever the grammars and the entities, a fault is one of the extremes;
  - with tame entities and grammars of short numerals there is no fault at all.
  Without that there can be one (`answer_immense`).
-/

import Errand.Proofs.Grammar.Drawing
import Errand.Proofs.Grammar.Reading
import Errand.Proofs.Task.Failing

namespace Errand

open Text (ShortNumerals)

/-- A sentence can be drawn from rules. -/
def Rules.Makes (rules : Rules) (sentence : Text) : Prop :=
  ∃ w, Derives Symbol.letter? rules.Draws Sentence.maxDepth [.nonterminal startNonterminal] w ∧ sentence = Sentence.unescape w

/-- No sentence of a grammar has a numeral that is too long. -/
def Grammar.IsShort (grammar : Grammar) : Prop := ∀ sentence, grammar.rules.Makes sentence → ShortNumerals false sentence

/-- A fault that is no fault of the grammar, the sentence or the entities. -/
def Fault.Extreme (f : Fault) : Prop := ∃ f', f = .task f' ∧ f'.Extreme

namespace TaskSource
variable {σ : Type} [RandomSource σ]

/-! ## One request -/

/-- What requests leave as it is. -/
def given (g : TaskSource σ) : List Grammar × Store := (g.grammars, g.store)

theorem chooseAmong_spec (tiers : List Tier) (g : TaskSource σ) : ((chooseAmong tiers).run g).2.given = g.given ∧
    ∀ grammar ∈ ((chooseAmong tiers).run g).1, grammar ∈ g.grammars := by
  induction tiers generalizing g with
  | nil => exact ⟨rfl, fun grammar h => by cases h⟩
  | cons tier rest ih =>
    rw [chooseAmong, run_bind_state]
    split
    · rename_i first more hfilter
      refine ⟨rfl, fun grammar h => ?_⟩
      cases h
      have hmem : ∀ x ∈ first :: more, x ∈ g.grammars := by
        rw [← hfilter]
        exact fun x hx => (List.mem_filter.mp hx).1
      exact hmem _ (List.get_mem _ _)
    · exact ih _

theorem select_spec (tier : Tier) (name : Option Text) (g : TaskSource σ) : ((select tier name).run g).2.given = g.given ∧
    ∀ grammar ∈ ((select tier name).run g).1, grammar ∈ g.grammars := by
  rw [select]
  split
  · rw [run_bind_state]
    split
    · rename_i grammar hfind
      refine ⟨rfl, fun x hx => ?_⟩
      cases hx
      exact List.mem_of_find?_eq_some hfind
    · exact ⟨rfl, fun grammar h => by cases h⟩
  · rw [run_bind_state]
    obtain ⟨hgiven, hmem⟩ := chooseAmong_spec (tiers.filter (· ≤ tier)) g
    split
    · rename_i grammar hchosen
      exact ⟨hgiven, fun x hx => hmem x (by rw [hchosen]; exact hx)⟩
    · exact ⟨hgiven, fun grammar h => by cases h⟩

theorem sentence_eq (grammar : Grammar) (g : TaskSource σ) : (sentence grammar).run g =
    (((Sentence.draw grammar.rules).run g.random).1.mapError .sentence,
      { g with random := ((Sentence.draw grammar.rules).run g.random).2 }) := by
  rw [sentence, run_bind_get]
  rcases (Sentence.draw grammar.rules).run g.random with ⟨f | t, random⟩
  · rfl
  · rfl

theorem attempt_given (tier : Tier) (grammar : Grammar) : Retains given (attempt (σ := σ) tier grammar) := by
  have hsentence : Retains given (sentence (σ := σ) grammar) := fun g => by rw [sentence_eq]; rfl
  have htask (t : Text) : Retains given (taskOf (σ := σ) tier t) := fun g => by rw [taskOf_eq]; rfl
  exact hsentence.bind fun t => (htask t).bind fun _ => retains_pure _

/-- The work on a sentence of a grammar fails. -/
def FailsOn (σ : Type) [RandomSource σ] (store : Store) (grammar : Grammar) (f : Fault) : Prop :=
  ∃ (sentence : Text) (tier : Tier) (random : σ) (next : Int) (f' : TaskFault) (r : Resolver σ),
    grammar.rules.Makes sentence ∧ 0 ≤ next ∧ f = .task f' ∧
    (Resolver.task store sentence).run (Resolver.start store tier random next) = (.error f', r)

/-- What an attempt fails of is the drawing of a sentence, or the work on one that was drawn. -/
theorem attempt_error {tier : Tier} {grammar : Grammar} {f : Fault} {g g' : TaskSource σ} (hg : 0 ≤ g.next)
    (h : (attempt tier grammar).run g = (.error f, g')) : (∃ f', f = .sentence f') ∨ FailsOn σ g.store grammar f := by
  rcases hdraw : (Sentence.draw grammar.rules).run g.random with ⟨f' | sentence, random⟩
  · have hs := sentence_eq grammar g
    rw [hdraw] at hs
    rw [attempt, run_bind_error hs] at h
    cases h
    exact Or.inl ⟨f', rfl⟩
  · have hs := sentence_eq grammar g
    rw [hdraw] at hs
    rw [attempt, run_bind_ok hs] at h
    right
    rcases run_bind_eq_error.mp h with ht | ⟨t', g₂, -, h⟩
    · rw [taskOf_eq] at ht
      rcases hrun : (Resolver.task g.store sentence).run (Resolver.start g.store tier random g.next) with ⟨f' | t', r⟩
      · rw [hrun] at ht
        cases ht
        exact ⟨sentence, tier, random, g.next, f', r, Sentence.derives_of_draw hdraw, hg, rfl, hrun⟩
      · rw [hrun] at ht
        cases ht
    · cases h

/-- If a request fails, then of an attempt that is not tried again. -/
theorem tryTask_error {tier : Tier} {name : Option Text} {left : Nat} {f : Fault} {g g' : TaskSource σ}
    (hg : (firstAutomatic : Int) ≤ g.next) (h : (tryTask tier name left).run g = (.error f, g')) :
    f.isOrdinary = false ∧ ∃ grammar ∈ g.grammars, FailsOn σ g.store grammar f := by
  induction left generalizing g with
  | zero => cases h
  | succ left ih =>
    rw [tryTask, run_bind_ok run_lift] at h
    obtain ⟨hgiven, hmem⟩ := select_spec tier name g
    have hnext := select_next tier name g
    generalize (select tier name).run g = chosen at h hgiven hmem hnext
    obtain ⟨_ | grammar, g₁⟩ := chosen
    · cases h
    dsimp only at h hgiven hmem hnext
    obtain ⟨hgrammars, hstore⟩ := Prod.mk.inj hgiven
    rw [run_bind_ok run_lift] at h
    rcases ha : StateT.run (attempt tier grammar).run g₁ with ⟨f' | t, g₂⟩
    · rw [ha] at h
      by_cases hf : f'.isOrdinary = true
      · simp only [if_pos hf] at h
        rw [run_bind_ok run_lift] at h
        have hle := (attempt_assigns (by rw [hnext]; exact hg) ha).1
        have hgiven₂ := (attempt_given tier grammar).eq ha
        obtain ⟨hgrammars₂, hstore₂⟩ := Prod.mk.inj hgiven₂
        have hlater := ih (by show (firstAutomatic : Int) ≤ g₂.next; omega) h
        rw [← hgrammars, ← hstore, ← hgrammars₂, ← hstore₂]
        exact hlater
      · simp only [if_neg hf] at h
        cases h
        refine ⟨Bool.eq_false_iff.mpr hf, grammar, hmem grammar rfl, ?_⟩
        have hcount : 0 ≤ g₁.next := by
          rw [hnext]
          exact Int.le_trans (Int.natCast_nonneg _) hg
        rcases attempt_error hcount ha with ⟨f'', rfl⟩ | hfails
        · exact absurd rfl hf
        · rwa [hstore] at hfails
    · rw [ha] at h
      cases h

theorem tryTask_given {tier : Tier} {name : Option Text} {left : Nat} : Retains given (tryTask (σ := σ) tier name left) := by
  induction left with
  | zero => exact retains_pure _
  | succ left ih =>
    have hselect : Retains given (ExceptT.lift (select tier name) : Supplying σ _) := fun g => (select_spec tier name g).1
    refine hselect.bind fun chosen => ?_
    rcases chosen with _ | grammar
    · exact retains_pure _
    have hattempt : Retains given (ExceptT.lift (attempt tier grammar).run : Supplying σ _) := attempt_given tier grammar
    refine hattempt.bind fun outcome => ?_
    rcases outcome with f | t
    · dsimp only
      split
      · have hnote (text : Text) : Retains given (ExceptT.lift (note .warning text) : Supplying σ _) := fun g => rfl
        exact (hnote _).bind fun _ => ih
      · exact retains_throw _
    · exact retains_pure _

/-! ## Request after request -/

/-- What comes of some requests, each for a tier and a grammar. -/
def answers : List (Tier × Option Text) → TaskSource σ → List (Except Fault (Option Task))
  | [], _ => []
  | (tier, name) :: rest, g =>
    let (outcome, g') := (task tier name).run g
    outcome :: answers rest g'

/-- A fault among the answers is one of the work on some sentence of the grammars. -/
theorem answers_error {requests : List (Tier × Option Text)} {g : TaskSource σ}
    (hg : (firstAutomatic : Int) ≤ g.next) {f : Fault} (h : .error f ∈ answers requests g) :
    f.isOrdinary = false ∧ ∃ grammar ∈ g.grammars, FailsOn σ g.store grammar f := by
  induction requests generalizing g with
  | nil => cases h
  | cons request rest ih =>
    obtain ⟨tier, name⟩ := request
    rcases hrun : (task tier name).run g with ⟨outcome, g'⟩
    rw [answers, hrun] at h
    obtain ⟨hgrammars, hstore⟩ := Prod.mk.inj (tryTask_given.eq hrun)
    rcases List.mem_cons.mp h with rfl | h
    · exact tryTask_error hg hrun
    · rw [← hgrammars, ← hstore]
      exact ih (Int.le_trans hg (request_assigns hg hrun).1) h

/-- Requests fail of nothing but extremes. If no sentence of the grammars has a numeral that is too
    long and the entities are tame, every request ends well, with a task or without one. -/
theorem answers_end (grammars : List Grammar) (store : Store) (random : σ) (requests : List (Tier × Option Text)) :
    (∀ f, .error f ∈ answers requests (start grammars store random) → f.Extreme) ∧
    (store.IsTame → (∀ grammar ∈ grammars, grammar.IsShort) →
      ∀ outcome ∈ answers requests (start grammars store random), ∃ t?, outcome = .ok t?) := by
  constructor
  · intro f h
    obtain ⟨hf, grammar, -, sentence, tier, random', next, f', r, -, -, rfl, hrun⟩ := answers_error (Int.le_refl _) h
    exact ⟨f', rfl, Resolver.task_extreme hrun hf⟩
  · intro htame hshort outcome hmem
    rcases outcome with f | t?
    · obtain ⟨hf, grammar, hgrammar, sentence, tier, random', next, f', r, hmakes, hnext, rfl, hrun⟩ :=
        answers_error (Int.le_refl _) hmem
      have hpools : ∀ d, ∀ e ∈ (Resolver.start store tier random' next).pools.get d, e.IsTame := by
        intro d e he
        have hdrawn := (Resolver.start_pools_perm store tier random' next d).subset he
        exact htame d e (Pools.mem_ofStore hdrawn).1
      have hordinary := Resolver.task_ordinary (hshort grammar hgrammar sentence hmakes) hpools hnext hrun
      rw [Fault.isOrdinary, hordinary] at hf
      cases hf
    · exact ⟨t?, rfl⟩

/-! ## Extremes that come up -/

/-- The fault of a test that a request comes to. -/
def testFault? : Except Fault (Option Task) → Option Where.TestFault
  | .error (.task (.test f)) => some f
  | _ => none

/-- A grammar of one sentence. -/
def grammarText (sentence : Text) : Text := "; grammar tier easy\n$Main = ".text ++ sentence

/-- The grammar of a text, on a disk without files. -/
def grammar? (text : Text) : Option Grammar := ((Grammar.parse ⟨[], "/".text, "/".text⟩ text none none true).run []).1.toOption

/-- What comes of a request for the task of a sentence. -/
def answersTo (store : Store) (sentence : Text) : Option (List (Except Fault (Option Task))) :=
  (grammar? (grammarText sentence)).map fun grammar => answers [(.easy, none)] (start [grammar] store (⟨[]⟩ : Script))

/-- A tier is compared with an integer. -/
def tierBelow (digits : Text) : Text := "bring \x7bobject where tier < ".text ++ digits ++ "\x7d".text

/-- A number in a clause can be so large that nothing can be compared with it. The request that
    comes upon it fails, and is not tried again. -/
theorem answer_immense :
    (answersTo Resolver.pantry (tierBelow ("1".text ++ List.replicate 320 (.char '0')))).map (·.map testFault?) =
      some [some .numberTooLarge] := by decide +kernel

/-- A cup of an immense weight, and a category that is called by bytes. -/
def oddPantry : Store :=
  { Resolver.pantry with
    categories := [⟨.bytes [0x78], none, []⟩]
    objects := [⟨.text "cup".text, .known, .easy, none, [("weight".text, .int (Int.ofNat (Nat.pow 10 4300)))]⟩] }

/-- Whether metadata refer to a name of bytes. -/
def isUnwritable : Except Fault (Option Task) → Bool
  | .error (.task .unwritableName) => true
  | _ => false

/-- Entities that are not tame come to the other extremes, whatever the numerals of the sentence. -/
theorem answers_odd :
    (answersTo oddPantry "bring \x7bobject where weight < 2\x7d".text).map (·.map testFault?) = some [some .numberTooLarge] ∧
    (answersTo oddPantry "bring \x7bobject where weight = 'x'\x7d".text).map (·.map testFault?) =
      some [some .numeralTooLong] ∧
    (answersTo oddPantry "\x7bvoid meta: of \x7bcategory\x7d\x7d".text).map (·.map isUnwritable) = some [true] := by
  decide +kernel

/-! ## A tame case -/

/-- Rules of one plain alternative make that one. -/
theorem makes_plain {a sentence : Text} (ha : .char '$' ∉ a) (h : Rules.Makes [⟨startNonterminal, [a]⟩] sentence) :
    sentence = Sentence.unescape a := by
  obtain ⟨w, hd, rfl⟩ := h
  cases hd with
  | letter hc _ => cases hc
  | @choice _ _ _ _ v _ hx hv hrest =>
    cases hrest
    obtain ⟨b, hb, rfl⟩ := hx
    have halternatives : Rules.alternativesFor [⟨startNonterminal, [a]⟩] startNonterminal = [a] := by
      simp [Rules.alternativesFor, Rules.find?]
    rw [halternatives, List.mem_singleton] at hb
    subst hb
    rw [symbols_plain ha] at hv
    rw [Rules.eq_of_derives hv, List.append_nil]

/-- A cup, and Ann to bring it to. -/
def kitchen : Store where
  rooms := []
  locations := []
  categories := []
  objects := [⟨.text "cup 7".text, .known, .easy, none, [("weight".text, .int 3)]⟩]
  people := [⟨.text "Ann".text, .female, []⟩]
  gestures := []
  questions := []

def serving : Text := "bring \x7bobject 1 where weight < 4\x7d to \x7bname where name != \x7bobject 1\x7d\x7d".text

def waving : Text := "wave \x7bgesture where tier <\x7d".text

def kitchenGrammars : List Grammar :=
  [⟨"serving".text, .easy, [⟨startNonterminal, [serving]⟩], none⟩, ⟨"waving".text, .easy, [⟨startNonterminal, [waving]⟩], none⟩]

/-- The text of the task that a request comes to. -/
def textOf : Except Fault (Option Task) → Option Text
  | .ok t? => t?.map Task.text
  | .error _ => none

/-- One request gets a task, another one none: its clause is cut short, and it fails three times. -/
theorem answers_end_kitchen : kitchen.IsTame ∧ (∀ grammar ∈ kitchenGrammars, grammar.IsShort) ∧
    ∃ t, (answers [(.easy, some "waving".text), (.high, some "Serving ".text)]
      (start kitchenGrammars kitchen (⟨[]⟩ : Script))) = [.ok none, .ok (some t)] ∧ t.text = "bring cup 7 to Ann".text := by
  have htame : kitchen.IsTame := by
    have hweight : Value.IsMeasurable (.int 3) := by
      refine ⟨.scalar (by decide +kernel), fun n hn => ?_⟩
      cases hn
      exact Double.ofInt?_isSome (by decide +kernel)
    intro d e he
    cases d with
    | object =>
      cases List.mem_singleton.mp he
      refine ⟨rfl, by decide +kernel, fun v hv => ?_⟩
      cases List.mem_singleton.mp hv
      exact hweight
    | person =>
      cases List.mem_singleton.mp he
      refine ⟨rfl, by decide +kernel, fun v hv => ?_⟩
      cases hv
    | category | gesture | place | question => cases he
  have hshort : ∀ grammar ∈ kitchenGrammars, grammar.IsShort := by
    have hserving : ShortNumerals false (Sentence.unescape serving) := by decide +kernel
    have hwaving : ShortNumerals false (Sentence.unescape waving) := by decide +kernel
    refine List.forall_mem_cons.mpr ⟨fun sentence h => ?_, List.forall_mem_singleton.mpr fun sentence h => ?_⟩
    · rw [makes_plain (by decide) h]
      exact hserving
    · rw [makes_plain (by decide) h]
      exact hwaving
  refine ⟨htame, hshort, ?_⟩
  have hend := (answers_end kitchenGrammars kitchen (⟨[]⟩ : Script)
    [(.easy, some "waving".text), (.high, some "Serving ".text)]).2 htame hshort
  have htexts : (answers [(.easy, some "waving".text), (.high, some "Serving ".text)]
      (start kitchenGrammars kitchen (⟨[]⟩ : Script))).map textOf = [none, some "bring cup 7 to Ann".text] := by
    decide +kernel
  generalize answers _ (start kitchenGrammars kitchen (⟨[]⟩ : Script)) = outcomes at hend htexts ⊢
  obtain ⟨first, rest, rfl, hfirst, hrest⟩ := List.map_eq_cons_iff.mp htexts
  obtain ⟨second, rest, rfl, hsecond, hnil⟩ := List.map_eq_cons_iff.mp hrest
  cases List.map_eq_nil_iff.mp hnil
  obtain ⟨t₁, rfl⟩ := hend first List.mem_cons_self
  obtain ⟨t₂, rfl⟩ := hend second (List.mem_cons_of_mem _ List.mem_cons_self)
  obtain ⟨t, rfl, ht⟩ := Option.map_eq_some_iff.mp hsecond
  cases Option.map_eq_none_iff.mp hfirst
  exact ⟨t, rfl, ht⟩

end TaskSource

end Errand
