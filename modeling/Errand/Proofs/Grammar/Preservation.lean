/-
  Errand.Proofs.Grammar.Preservation — whether expansion keeps the language.

  The language is that of `$Main` in the rules as they were written, with their groups
  (`Rules.Language`). It is kept if the rules are legible (`Legible`): in what can be
  reached from `$Main`, no character of a nonterminal stands right behind a group, and
  no nonterminal without a rule is called like one that expansion makes. Legible are
  exactly the rules that read back after expansion (`ReadsBack`).

  Proved:
  (1) `expanded_keeps_language`: rules are legible if and only if they read back, and then the
      sentences that can be drawn are the strings of the language, unescaped, whose
      derivations stay within the depth.
  (2) `group_swallows_text`, `name_claimed`: the two conditions are necessary. The word
      "cats" is lost from `$Main = (cat)s`, and `$Main = (cat) $Main_0` says "cat" twice.
-/

import Errand.Proofs.Grammar.Drawing
import Errand.Proofs.Grammar.Reading
import Errand.Proofs.Grammar.Segments
import Mathlib

namespace Errand

namespace Rules

/-! ## Legible rules -/

/-- The alternatives that a derivation from `$Main` may choose. -/
inductive Reached (rules : Rules) : Text → Prop
  | start {a : Text} : a ∈ rules.alternativesFor startNonterminal → Reached rules a
  | within {a b : Text} {x : Part} : Reached rules a → x ∈ (Cut.ofText a).parts →
      b ∈ rules.alternativesOf x → Reached rules b

/-- Expansion makes no rule for this nonterminal. -/
def Keeps (rules : Rules) (name : Text) : Prop := name ∈ names rules.expanded → name ∈ names rules

structure Legible (rules : Rules) : Prop where
  apart : ∀ a, rules.Reached a → (Cut.ofText a).Apart
  kept : ∀ a name, rules.Reached a → .nonterminal name ∈ (Cut.ofText a).parts → rules.Keeps name

/-- Whatever nonterminals its groups become, each alternative is read as the parts that it
    had. -/
def ReadsBack (rules : Rules) : Prop :=
  ∀ a b parent made, rules.Reached a → Named parent → Respelled parent made a b →
    List.Forall₂ (Reads rules.Keeps made) (Cut.ofText a).parts (symbols b)

theorem start_named : Named startNonterminal := ⟨"Main".text, rfl, by decide, by decide⟩

theorem exists_of_forall₂ {α β : Type} {R : α → β → Prop} {as : List α} {bs : List β} {a : α}
    (h : List.Forall₂ R as bs) (ha : a ∈ as) : ∃ b ∈ bs, R a b := by
  induction h with
  | nil => cases ha
  | @cons x y xs ys hxy _ ih =>
    rcases List.mem_cons.mp ha with rfl | ha
    · exact ⟨y, List.mem_cons_self, hxy⟩
    · obtain ⟨b, hb, hab⟩ := ih ha
      exact ⟨b, List.mem_cons_of_mem _ hb, hab⟩

theorem legible_iff {rules : Rules} : rules.Legible ↔ rules.ReadsBack := by
  constructor
  · intro h a b parent made ha hp hab
    exact hab.reads hp (h.apart a ha) fun name hn => h.kept a name ha hn
  · intro h
    have hread : ∀ a, rules.Reached a → ∃ made b, Respelled startNonterminal made a b ∧
        List.Forall₂ (Reads rules.Keeps made) (Cut.ofText a).parts (symbols b) := by
      intro a ha
      have hab : Respelled startNonterminal _ a _ :=
        ⟨_, nameGroups_spliced startNonterminal [] 0 (Cut.ofText a).groups, rfl⟩
      exact ⟨_, _, hab, h _ _ _ _ ha start_named hab⟩
    refine ⟨fun a ha => ?_, fun a name ha hn => ?_⟩
    · obtain ⟨made, b, hab, hr⟩ := hread a ha
      exact (hab.length_symbols_eq_iff start_named).mp hr.length_eq.symm
    · obtain ⟨made, b, hab, hr⟩ := hread a ha
      obtain ⟨y, -, hy⟩ := exists_of_forall₂ hr hn
      cases hy with
      | nonterminal _ hk => exact hk

/-- Checks that the alternatives in a list are all that can be reached, and that they are as
    legible rules want them. -/
def legibleWithin (rules : Rules) (reach : List Text) : Bool :=
  (rules.alternativesFor startNonterminal).all reach.contains && reach.all fun a =>
    (Cut.ofText a).groups.all (fun g => g.2.head?.all (!isRuleChar ·)) &&
    (Cut.ofText a).parts.all fun x => (rules.alternativesOf x).all reach.contains &&
      match x with
      | .nonterminal name => !(names rules.expanded).contains name || (names rules).contains name
      | _ => true

theorem legible_of_within {rules : Rules} (reach : List Text) (h : rules.legibleWithin reach = true) :
    rules.Legible := by
  simp only [legibleWithin, Bool.and_eq_true, List.all_eq_true] at h
  obtain ⟨hstart, hall⟩ := h
  have hmem : ∀ a, rules.Reached a → a ∈ reach := by
    intro a ha
    induction ha with
    | start ha => exact List.contains_iff_mem.mp (hstart _ ha)
    | within _ hx hb ih => exact List.contains_iff_mem.mp (((hall _ ih).2 _ hx).1 _ hb)
  refine ⟨fun a ha g hg c hc => ?_, fun a name ha hn hk => ?_⟩
  · have := (hall a (hmem a ha)).1 g hg
    rw [Option.mem_def.mp hc] at this
    simpa using this
  · have := ((hall a (hmem a ha)).2 _ hn).2
    simpa [hk] using this

/-! ## The alternatives of a nonterminal -/

theorem alternativesFor_cons_self (r : Rule) (all : Rules) :
    alternativesFor (r :: all) r.nonterminal = if r.alternatives = [] then [[]] else r.alternatives := by
  have hfind : find? (r :: all) r.nonterminal = some r := List.find?_cons_of_pos (by simp)
  rw [alternativesFor, hfind]
  rcases h : r.alternatives with _ | ⟨first, more⟩ <;> simp [h]

theorem alternativesFor_cons_of_ne {r : Rule} {name : Text} (h : r.nonterminal ≠ name) (all : Rules) :
    alternativesFor (r :: all) name = all.alternativesFor name := by
  rw [alternativesFor, find?, List.find?_cons_of_neg (by simpa using h)]
  rfl

theorem alternativesFor_of_notMem {all : Rules} {name : Text} (h : name ∉ names all) :
    all.alternativesFor name = [[]] := by
  induction all with
  | nil => rfl
  | cons r all ih =>
    obtain ⟨hne, hrest⟩ := List.ne_and_not_mem_of_not_mem_cons h
    rw [alternativesFor_cons_of_ne hne.symm, ih hrest]

theorem alternativesFor_of_mem {all : Rules} {r : Rule} (hn : (names all).Nodup) (hm : r ∈ all)
    (hne : r.alternatives ≠ []) : all.alternativesFor r.nonterminal = r.alternatives := by
  induction all with
  | nil => cases hm
  | cons first all ih =>
    obtain ⟨hnew, hrest⟩ := List.nodup_cons.mp hn
    rcases List.mem_cons.mp hm with rfl | hm
    · rw [alternativesFor_cons_self, if_neg hne]
    · have hne' : first.nonterminal ≠ r.nonterminal := by
        intro e
        exact hnew (List.mem_map.mpr ⟨r, hm, e.symm⟩)
      rw [alternativesFor_cons_of_ne hne', ih hrest hm]

theorem alternativesFor_append {rules : Rules} (made : Rules) {name : Text} (h : name ∈ names rules) :
    (rules ++ made).alternativesFor name = rules.alternativesFor name := by
  induction rules with
  | nil => cases h
  | cons r rules ih =>
    by_cases e : r.nonterminal = name
    · subst e
      rw [List.cons_append, alternativesFor_cons_self, alternativesFor_cons_self]
    · rw [List.cons_append, alternativesFor_cons_of_ne e, alternativesFor_cons_of_ne e]
      refine ih ?_
      rcases List.mem_cons.mp h with h | h
      · exact absurd h.symm e
      · exact h

/-! ## The alternatives before and after expansion -/

section
variable {rules made all es : Rules}

theorem names_expanded (h : List.Forall₂ (Expanded made) all es) : names es = names all := by
  induction h with
  | nil => rfl
  | @cons r e all es hre _ ih =>
    show e.nonterminal :: names es = r.nonterminal :: names all
    rw [ih, hre.1]

theorem respelled_nil (parent : Text) : Respelled parent made [] [] := by
  refine ⟨[], ?_, ?_⟩
  · rw [Cut.ofText]
    exact .nil
  · rw [Cut.ofText]
    rfl

theorem alternativesFor_expanded (h : List.Forall₂ (Expanded made) all es) (name : Text) :
    List.Forall₂ (Respelled name made) (all.alternativesFor name) (es.alternativesFor name) := by
  induction h with
  | nil => exact .cons (respelled_nil name) .nil
  | @cons r e all es hre _ ih =>
    obtain ⟨hname, halts⟩ := hre
    by_cases hr : r.nonterminal = name
    · subst hr
      have he := alternativesFor_cons_self e es
      rw [hname] at he
      rw [he, alternativesFor_cons_self]
      cases hra : r.alternatives with
      | nil =>
        rw [hra, List.forall₂_nil_left_iff] at halts
        rw [if_pos rfl, if_pos halts]
        exact .cons (respelled_nil _) .nil
      | cons a more =>
        rw [hra] at halts
        cases hea : e.alternatives with
        | nil =>
          rw [hea] at halts
          cases halts
        | cons b rest =>
          rw [hea] at halts
          simpa using halts
    · rw [alternativesFor_cons_of_ne hr, alternativesFor_cons_of_ne (hname ▸ hr)]
      exact ih

theorem start_kept (hnum : ∀ r ∈ made, ∃ parent i, r.nonterminal = numbered parent i)
    (hall : List.Forall₂ (Expanded (rules ++ made)) (rules ++ made) rules.expanded) :
    rules.Keeps startNonterminal := by
  intro h
  rw [names_expanded hall, names_append] at h
  rcases List.mem_append.mp h with h | h
  · exact h
  -- there is no underscore in the name of the start
  · obtain ⟨r, hr, e⟩ := List.mem_map.mp h
    obtain ⟨parent, i, hi⟩ := hnum r hr
    have hmem : CodePoint.char '_' ∈ startNonterminal := by
      rw [← e, hi, numbered]
      exact List.mem_append_left _ (List.mem_append_right _ List.mem_cons_self)
    exact absurd hmem (by decide)

/-- A symbol offers what became of the alternatives of the part that it was. -/
theorem alternatives_reads (hn : (names (rules ++ made)).Nodup)
    (hall : List.Forall₂ (Expanded (rules ++ made)) (rules ++ made) rules.expanded) {x : Part} {name : Text}
    (hx : Reads rules.Keeps (rules ++ made) x (.nonterminal name)) :
    List.Forall₂ (Respelled name (rules ++ made)) (rules.alternativesOf x) (rules.expanded.alternativesFor name) := by
  have hsame : rules.alternativesOf x = (rules ++ made).alternativesFor name := by
    cases hx with
    | nonterminal _ hk =>
      show rules.alternativesFor name = _
      by_cases hm : name ∈ names rules
      · rw [alternativesFor_append made hm]
      · have hfree : name ∉ names (rules ++ made) := by
          rw [← names_expanded hall]
          exact fun h => hm (hk h)
        rw [alternativesFor_of_notMem hm, alternativesFor_of_notMem hfree]
    | @group inside _ _ hm => exact (alternativesFor_of_mem hn hm (alternativesIn_ne_nil inside)).symm
  rw [hsame]
  exact alternativesFor_expanded hall name

end

/-! ## Simulation -/

section
variable {rules made : Rules}

/-- A symbol stands for a part that can be reached. -/
def StandsFor (rules made : Rules) (x : Part) (y : Symbol) : Prop :=
  (∀ a ∈ rules.alternativesOf x, rules.Reached a) ∧ Reads rules.Keeps (rules ++ made) x y

theorem standsFor_symbols {parent a b : Text} (h : rules.ReadsBack) (ha : rules.Reached a) (hp : Named parent)
    (hab : Respelled parent (rules ++ made) a b) :
    List.Forall₂ (StandsFor rules made) (Cut.ofText a).parts (symbols b) :=
  (List.forall₂_and_left _ _).mpr ⟨fun _ hx _ hc => .within ha hx hc, h a b parent _ ha hp hab⟩

theorem StandsFor.letter {x : Part} {y : Symbol} (h : StandsFor rules made x y) : x.letter? = y.letter? := by
  cases h.2 <;> rfl

section
variable (hread : rules.ReadsBack) (hn : (names (rules ++ made)).Nodup)
  (hall : List.Forall₂ (Expanded (rules ++ made)) (rules ++ made) rules.expanded)
include hread hn hall

theorem StandsFor.draws {x : Part} {y : Symbol} (h : StandsFor rules made x y) {ps : List Part}
    (hps : rules.Offers x ps) : ∃ ys, rules.expanded.Draws y ys ∧ List.Forall₂ (StandsFor rules made) ps ys := by
  obtain ⟨hreach, hreads⟩ := h
  obtain ⟨a, ha, k, hk, rfl⟩ := hps
  rw [← hk.eq_ofText]
  cases y with
  | terminal c =>
    cases hreads
    cases ha
  | nonterminal name =>
    obtain ⟨b, hb, hab⟩ := exists_of_forall₂ (alternatives_reads hn hall hreads) ha
    exact ⟨symbols b, ⟨b, hb, rfl⟩, standsFor_symbols hread (hreach a ha) hreads.named hab⟩

theorem StandsFor.offers {x : Part} {y : Symbol} (h : StandsFor rules made x y) {ys : List Symbol}
    (hys : rules.expanded.Draws y ys) : ∃ ps, rules.Offers x ps ∧ List.Forall₂ (StandsFor rules made) ps ys := by
  obtain ⟨hreach, hreads⟩ := h
  cases y with
  | terminal c => cases hys
  | nonterminal name =>
    obtain ⟨b, hb, rfl⟩ := hys
    obtain ⟨a, ha, hab⟩ := exists_of_forall₂ (R := flip (Respelled name (rules ++ made)))
      (alternatives_reads hn hall hreads).flip hb
    exact ⟨_, ⟨a, ha, _, cutAt_ofText a, rfl⟩, standsFor_symbols hread (hreach a ha) hreads.named hab⟩

/-- Before and after expansion the same strings are derived from what stands for one another. -/
theorem derives_iff {n : Nat} {xs : List Part} {ys : List Symbol} {w : Text}
    (h : List.Forall₂ (StandsFor rules made) xs ys) :
    Derives Part.letter? rules.Offers n xs w ↔ Derives Symbol.letter? rules.expanded.Draws n ys w := by
  constructor
  · intro hd
    refine hd.transfer (fun x y c hxy hc => ?_) (fun x y ps hxy hps => ?_) h
    · rw [← hxy.letter, hc]
    · exact hxy.draws hread hn hall hps
  · intro hd
    refine hd.transfer (R := flip (StandsFor rules made)) (fun y x c hxy hc => ?_) (fun y x ys hxy hys => ?_) h.flip
    · rw [StandsFor.letter hxy, hc]
    · obtain ⟨ps, hps, hr⟩ := StandsFor.offers hread hn hall hxy hys
      exact ⟨ps, hps, hr.flip⟩

end

end

/-- The strings of the language are those that the rules after expansion derive. -/
theorem language_iff_derives {rules : Rules} (hn : (names rules).Nodup) (h : rules.ReadsBack) {nesting : Nat}
    {w : Text} : rules.Language startNonterminal nesting w ↔
      Derives Symbol.letter? rules.expanded.Draws (nesting + 1) [.nonterminal startNonterminal] w := by
  obtain ⟨made, hnew, hnum, hall⟩ := expanded_spec hn
  refine derives_iff h hnew hall (.cons ⟨fun a ha => .start ha, ?_⟩ .nil)
  exact .nonterminal start_named (start_kept hnum hall)

/-- What is kept and what is not: rules are legible if and only if their alternatives read back
    after expansion, and then exactly the strings of the language are drawn, unescaped. -/
theorem expanded_keeps_language {rules : Rules} (hn : (names rules).Nodup) :
    (rules.Legible ↔ rules.ReadsBack) ∧ (rules.Legible →
      (∀ (σ : Type) [RandomSource σ] (t : Text) (s s' : σ), (Sentence.draw rules.expanded).run s = (.ok t, s') →
        ∃ w, rules.Language startNonterminal 999 w ∧ t = Sentence.unescape w) ∧
      ∀ w, rules.Language startNonterminal 999 w →
        ∃ s s' : Script, (Sentence.draw rules.expanded).run s = (.ok (Sentence.unescape w), s')) := by
  refine ⟨legible_iff, fun h => ⟨?_, ?_⟩⟩
  · intro σ _ t s s' hd
    obtain ⟨w, hw, ht⟩ := Sentence.derives_of_draw hd
    exact ⟨w, (language_iff_derives hn (legible_iff.mp h)).mpr hw, ht⟩
  · intro w hw
    exact Sentence.exists_draw ((language_iff_derives hn (legible_iff.mp h)).mp hw)

/-! ## Examples -/

theorem derives_text {offers : Part → List Part → Prop} {n : Nat} (t : Text) :
    Derives Part.letter? offers n (t.map .terminal) t := by
  induction t with
  | nil => exact .done
  | cons c t ih => exact .letter rfl ih

theorem derives_choice (rules : Rules) {n : Nat} (x : Part) {rest : List Part} {u w : Text} (a v : Text)
    (ha : (rules.alternativesOf x).contains a = true)
    (hv : Derives Part.letter? rules.Offers n (Cut.ofText a).parts v)
    (hw : Derives Part.letter? rules.Offers (n + 1) rest w) (hu : v ++ w = u) :
    Derives Part.letter? rules.Offers (n + 1) (x :: rest) u :=
  hu ▸ .choice ⟨a, List.contains_iff_mem.mp ha, _, cutAt_ofText a, rfl⟩ hv hw

theorem derives_word (rules : Rules) {n : Nat} (x : Part) {rest : List Part} {u w : Text} (a : Text)
    (ha : (rules.alternativesOf x).contains a = true)
    (hp : (Cut.ofText a).parts = a.map .terminal)
    (hw : Derives Part.letter? rules.Offers (n + 1) rest w) (hu : a ++ w = u) :
    Derives Part.letter? rules.Offers (n + 1) (x :: rest) u :=
  derives_choice rules x a a ha (hp ▸ derives_text a) hw hu

/-- `$Main = to (a|the) $place`, `$place = den`. -/
def walk : Rules := [⟨"$Main".text, ["to (a|the) $place".text]⟩, ⟨"$place".text, ["den".text]⟩]

theorem walk_legible : walk.Legible :=
  legible_of_within ["to (a|the) $place".text, "a".text, "the".text, "den".text] (by cbv)

theorem walk_language : walk.Language startNonterminal 999 "to the den".text := by
  have hplace : Derives Part.letter? walk.Offers 999 [.nonterminal "$place".text] "den".text :=
    derives_word walk _ "den".text (by cbv) (by cbv) .done rfl
  have hgroup : Derives Part.letter? walk.Offers 999
      [.group "a|the".text, .terminal ' ', .nonterminal "$place".text] "the den".text :=
    derives_word walk _ "the".text (by cbv) (by cbv) (.letter rfl hplace) rfl
  have hparts : (Cut.ofText "to (a|the) $place".text).parts =
      [.terminal 't', .terminal 'o', .terminal ' ', .group "a|the".text, .terminal ' ',
        .nonterminal "$place".text] := by cbv
  refine derives_choice walk _ "to (a|the) $place".text "to the den".text (by cbv) ?_ .done rfl
  rw [hparts]
  exact .letter rfl (.letter rfl (.letter rfl hgroup))

theorem expanded_keeps_walk : (names walk).Nodup ∧ walk.Legible ∧
    ∃ s s' : Script, (Sentence.draw walk.expanded).run s = (.ok "to the den".text, s') := by
  have hn : (names walk).Nodup := by decide
  have hkeeps := (expanded_keeps_language hn).2 walk_legible
  exact ⟨hn, walk_legible, hkeeps.2 _ walk_language⟩

/-- The strings of a nonterminal with one alternative. -/
theorem derives_only {rules : Rules} {n : Nat} {name a : Text} {rest : List Symbol} {w : Text}
    (ha : rules.alternativesFor name = [a])
    (h : Derives Symbol.letter? rules.Draws n (.nonterminal name :: rest) w) :
    ∃ m v u, Derives Symbol.letter? rules.Draws m (symbols a) v ∧
      Derives Symbol.letter? rules.Draws n rest u ∧ w = v ++ u := by
  cases h with
  | letter hc _ => cases hc
  | choice hx hv hw =>
    obtain ⟨b, hb, rfl⟩ := hx
    rw [ha, List.mem_singleton] at hb
    subst hb
    exact ⟨_, _, _, hv, hw, rfl⟩

/-- `$Main = (cat)s`. -/
def touching : Rules := [⟨"$Main".text, ["(cat)s".text]⟩]

/-- Without `apart`: a string of the language is never drawn, whatever the source of choices. -/
theorem group_swallows_text : touching.Language startNonterminal 999 "cats".text ∧
    ∀ (σ : Type) [RandomSource σ] (t : Text) (s s' : σ),
      (Sentence.draw touching.expanded).run s = (.ok t, s') → t ≠ Sentence.unescape "cats".text := by
  constructor
  · refine derives_choice touching _ "(cat)s".text "cats".text (by cbv) ?_ .done rfl
    rw [show (Cut.ofText "(cat)s".text).parts = [.group "cat".text, .terminal 's'] by cbv]
    exact derives_word touching _ "cat".text (by cbv) (by cbv) (.letter rfl .done) rfl
  · intro σ _ t s s' hd
    obtain ⟨w, hw, rfl⟩ := Sentence.derives_of_draw hd
    obtain ⟨m, v, u, hv, hu, rfl⟩ := derives_only (a := "$Main_0s".text) (by cbv) hw
    rw [show symbols "$Main_0s".text = [.nonterminal "$Main_0s".text] by cbv] at hv
    obtain ⟨m, v', u', hv', hu', rfl⟩ := derives_only (a := []) (by cbv) hv
    rw [symbols_nil] at hv'
    cases hv'
    cases hu
    cases hu'
    decide

/-- `$Main = (cat) $Main_0`. -/
def claiming : Rules := [⟨"$Main".text, ["(cat) $Main_0".text]⟩]

/-- Without `kept`: a nonterminal that has no rule says what a group lists. -/
theorem name_claimed : claiming.Language startNonterminal 999 "cat ".text ∧
    ∀ (σ : Type) [RandomSource σ] (t : Text) (s s' : σ),
      (Sentence.draw claiming.expanded).run s = (.ok t, s') → t = "cat cat".text := by
  constructor
  · refine derives_choice claiming _ "(cat) $Main_0".text "cat ".text (by cbv) ?_ .done rfl
    rw [show (Cut.ofText "(cat) $Main_0".text).parts =
      [.group "cat".text, .terminal ' ', .nonterminal "$Main_0".text] by cbv]
    have hempty : Derives Part.letter? claiming.Offers 999 [.nonterminal "$Main_0".text] [] :=
      derives_word claiming _ [] (by cbv) (by cbv) .done rfl
    exact derives_word claiming _ "cat".text (by cbv) (by cbv) (.letter rfl hempty) rfl
  · intro σ _ t s s' hd
    obtain ⟨w, hw, rfl⟩ := Sentence.derives_of_draw hd
    obtain ⟨m, v, u, hv, hu, rfl⟩ := derives_only (a := "$Main_0 $Main_0".text) (by cbv) hw
    cases hu
    rw [show symbols "$Main_0 $Main_0".text =
      [.nonterminal "$Main_0".text, .terminal ' ', .nonterminal "$Main_0".text] by cbv] at hv
    have hcat : claiming.expanded.alternativesFor "$Main_0".text = ["cat".text] := by cbv
    have hsym : symbols "cat".text = "cat".text.map .terminal := by cbv
    obtain ⟨_, v₁, u₁, hv₁, hu₁, rfl⟩ := derives_only hcat hv
    rw [hsym] at hv₁
    cases hu₁ with
    | letter hc hu₁ =>
      cases hc
      obtain ⟨_, v₂, u₂, hv₂, hu₂, rfl⟩ := derives_only hcat hu₁
      rw [hsym] at hv₂
      cases hu₂
      rw [eq_of_derives hv₁, eq_of_derives hv₂]
      rfl
    | choice hx _ _ => cases hx

end Rules

end Errand
