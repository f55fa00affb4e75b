/-
  Errand.Proofs.Grammar.Placeholders — what becomes of the reason in a placeholder.

  A placeholder is a void wildcard that tells why a file was not mounted. Only the brackets
  and bars of the reason get a backslash in front, and before the wildcard is scanned the
  text goes through the expansion of groups, that of nonterminals, and the dropping of the
  backslashes. A reason survives this and the scan if no nonterminal is written in it, no
  backslash of its own brings a bracket back into play, and a void wildcard can tell it
  (`Conveyable`); these conditions are necessary (`Rules.conveys_iff`).

  What a group takes along is lost for good: the reason has more opening brackets then
  than any sentence that is drawn for it (`Respelled.opens_lt`).
-/

import Errand.Proofs.Grammar.Escaping
import Errand.Proofs.Wildcard.Notices

namespace Errand

/-! ## Texts without nonterminals -/

/-- No nonterminal is written in the text. -/
def Terminal (t : Text) : Prop := t.IsChain fun (a b : CodePoint) => ¬(a = '$' ∧ isRuleChar b = true)

theorem terminal_cons {c : CodePoint} {t : Text} :
    Terminal (c :: t) ↔ (c = '$' → ∀ d ∈ t.head?, isRuleChar d = false) ∧ Terminal t := by
  rw [Terminal, List.isChain_cons]
  refine and_congr_left fun _ => ⟨fun h hc d hd => ?_, fun h d hd hpair => ?_⟩
  · exact Bool.eq_false_iff.mpr fun hrule => h d hd ⟨hc, hrule⟩
  · rw [h hpair.1 d hd] at hpair
    cases hpair.2

theorem terminal_of_not_mem {t : Text} (h : .char '$' ∉ t) : Terminal t := by
  refine (List.isChain_isInfix t).imp ?_
  rintro a b hinside ⟨rfl, -⟩
  exact h (hinside.subset List.mem_cons_self)

theorem symbols_terminal {t : Text} (h : Terminal t) : symbols t = t.map .terminal := by
  induction t with
  | nil => exact symbols_nil
  | cons c t ih =>
    obtain ⟨hnext, ht⟩ := terminal_cons.mp h
    have hnone : ¬(decide (c = '$') && !(t.takeWhile isRuleChar).isEmpty) = true := by
      intro hname
      simp only [Bool.and_eq_true, decide_eq_true_eq, Bool.not_eq_true', List.isEmpty_eq_false_iff] at hname
      cases t with
      | nil => exact hname.2 rfl
      | cons d t => exact hname.2 (List.takeWhile_cons_of_neg (by simp [hnext hname.1 d rfl]))
    rw [symbols, if_neg hnone, ih ht]
    rfl

theorem terminal_of_symbols {t : Text} (h : ∀ name, .nonterminal name ∉ symbols t) : Terminal t := by
  fun_induction symbols t with
  | case1 => exact .nil
  | case2 => exact absurd List.mem_cons_self (h _)
  | case3 c rest name hnone ih =>
    refine terminal_cons.mpr ⟨fun hc d hd => ?_, ih fun name hmem => h name (List.mem_cons_of_mem _ hmem)⟩
    obtain ⟨more, rfl⟩ := List.head?_eq_some_iff.mp hd
    exact Bool.eq_false_iff.mpr fun hrule => hnone (by simp [name, hc, hrule])

theorem Terminal.not_mem {t : Text} (h : Terminal t) (name : Text) : .nonterminal name ∉ symbols t := by
  rw [symbols_terminal h]
  intro hmem
  obtain ⟨c, -, hc⟩ := List.mem_map.mp hmem
  cases hc

namespace Sentence

theorem not_ruleChar_of_grouping {c : CodePoint} (h : isGrouping c = true) : isRuleChar c = false := by
  simp only [isGrouping, Bool.or_eq_true, decide_eq_true_eq] at h
  rcases h with (rfl | rfl) | rfl <;> rfl

/-- A backslash in front of brackets and bars makes no nonterminal and hides none. -/
theorem terminal_escape {t : Text} : Terminal (escape t) ↔ Terminal t := by
  induction t with
  | nil => exact Iff.rfl
  | cons c t ih =>
    have hnext : (∀ d ∈ (escape t).head?, isRuleChar d = false) ↔ ∀ d ∈ t.head?, isRuleChar d = false := by
      cases t with
      | nil => exact Iff.rfl
      | cons d t =>
        rw [escape]
        split
        · rename_i hd
          exact iff_of_true (fun e he => by cases he; rfl) fun e he => by cases he; exact not_ruleChar_of_grouping hd
        · exact Iff.rfl
    rw [escape]
    split
    · rename_i hc
      have hdollar : c ≠ '$' := by
        rintro rfl
        cases hc
      rw [terminal_cons, terminal_cons, terminal_cons, ih]
      simp [hdollar]
    · rw [terminal_cons, terminal_cons, ih, hnext]

end Sentence

/-! ## Brackets that groups take along -/

theorem opens_append (t u : Text) : opens (t ++ u) = opens t + opens u := List.countP_append

/-- The brackets that a cut leaves, and one for each group. -/
theorem Cut.opens_le (t : Text) :
    opens (ofText t).first + totalOpens ((ofText t).groups.map Prod.snd) + (ofText t).groups.length ≤ opens t := by
  fun_induction ofText t with
  | case1 => exact Nat.le_refl _
  | case2 c rest ih =>
    simp only [cons, opens, List.countP_cons] at *
    omega
  | case3 rest inside after h ih =>
    have hopen : ((CodePoint.char '(' == CodePoint.char '(') = true) = True := by simp
    rw [Bracket.closing?_eq h]
    simp only [group, opens, List.map_cons, totalOpens_cons, List.length_cons, List.countP_cons, List.countP_append,
      List.countP_nil, hopen, if_true] at *
    omega
  | case4 rest h => simp
  | case5 c rest _ _ ih =>
    simp only [cons, opens, List.countP_cons] at *
    omega

theorem IsInert.opens {name : Text} (h : IsInert name) : opens name = 0 :=
  List.countP_eq_zero.mpr fun c hc hopen => (h c hc).2 (beq_iff_eq.mp hopen)

theorem Spliced.opens {parent t : Text} {made : Rules} {groups : List (Text × Text)} (hp : IsInert parent)
    (h : Spliced parent made groups t) : opens t = totalOpens (groups.map Prod.snd) := by
  induction h with
  | nil => rfl
  | cons _ _ ih => rw [opens_append, opens_append, (hp.numbered _).opens, ih, List.map_cons, totalOpens_cons, Nat.zero_add]

/-- Expansion takes a bracket away from each alternative that is not settled. -/
theorem Respelled.opens_lt {parent a b : Text} {made : Rules} (hp : IsInert parent) (h : Respelled parent made a b)
    (ha : ¬Settled a) : opens b < opens a := by
  obtain ⟨t, ht, rfl⟩ := h
  have hgroups : 0 < (Cut.ofText a).groups.length :=
    List.length_pos_iff.mpr fun hnil => ha (Cut.groups_eq_nil_iff.mp hnil)
  have hle := Cut.opens_le a
  rw [opens_append, ht.opens hp]
  omega

namespace Sentence

theorem unescape_sublist (t : Text) : (unescape t).Sublist t := by
  fun_induction unescape t with
  | case1 => exact .slnil
  | case2 c rest _ ih => exact (ih.cons_cons c).cons _
  | case3 c rest _ ih => exact ih.cons_cons _
  | case4 c rest _ ih => exact ih.cons_cons c

theorem opens_escape (t : Text) : opens (escape t) = opens t := by
  induction t with
  | nil => rfl
  | cons c t ih =>
    simp only [opens] at ih
    rw [escape]
    split
    · simp [opens, List.countP_cons, ih]
    · simp [opens, List.countP_cons, ih]

/-! ## Drawing for one alternative -/

/-- A nonterminal with one alternative becomes that one, if there are no nonterminals in it. -/
theorem drawFrom_single {σ : Type} [RandomSource σ] {rules : Rules} {nonterminal b : Text}
    (hsingle : rules.alternativesFor nonterminal = [b]) (hb : Terminal b) (s : σ) :
    ∃ s', (drawFrom rules nonterminal).run s = (.ok (unescape b), s') := by
  have hpick : (pick rules nonterminal s).1 = b := by
    have hmem : (pick rules nonterminal s).1 ∈ rules.alternativesFor nonterminal := pick_mem nonterminal s
    rw [hsingle] at hmem
    exact List.mem_singleton.mp hmem
  have hall : ∀ a ∈ rules.alternativesFor nonterminal, symbols a = a.map .terminal := by
    rw [hsingle, List.forall_mem_singleton]
    exact symbols_terminal hb
  have hrun := drawFrom_of_symbols hall s
  rw [hpick] at hrun
  exact ⟨_, hrun⟩

end Sentence

/-! ## Placeholders -/

/-- Whatever is drawn for the nonterminal is a notice of the reason, and no nonterminal is replaced
    in drawing it. -/
structure Rules.Conveys (rules : Rules) (nonterminal reason : Text) : Prop where
  terminal : ∀ a ∈ rules.alternativesFor nonterminal, ∀ name, .nonterminal name ∉ symbols a
  drawn : ∀ (σ : Type) [RandomSource σ] (s : σ), ∃ sentence s',
    (Sentence.drawFrom rules nonterminal).run s = (.ok sentence, s') ∧ IsNotice sentence reason

/-- A reason that comes out of its placeholder as it went in. -/
structure Conveyable (reason : Text) : Prop where
  terminal : Terminal reason
  settled : Settled (Grammar.placeholder reason)
  tellable : Tellable reason

theorem placeholder_eq (reason : Text) : Grammar.placeholder reason = Sentence.escape (inMetadata reason) := by
  have hescape (t : Text) : (t.flatMap fun (c : CodePoint) =>
      if c = '(' || c = ')' || c = '|' then "\\".text ++ [c] else [c]) = Sentence.escape t := by
    induction t with
    | nil => rfl
    | cons c t ih =>
      rw [List.flatMap_cons, ih, Sentence.escape, Sentence.isGrouping]
      split
      · rfl
      · rfl
  rw [Grammar.placeholder, hescape, inMetadata, Sentence.escape_append, Sentence.escape_append]
  rfl

theorem terminal_inMetadata {t : Text} : Terminal (inMetadata t) ↔ Terminal t := by
  rw [inMetadata, Terminal, List.isChain_append, List.isChain_append]
  constructor
  · exact fun h => h.1.2.1
  · refine fun h => ⟨⟨by decide, h, ?_⟩, by decide, ?_⟩
    · rintro a ha b - ⟨rfl, -⟩
      cases ha
    · rintro a - b hb ⟨-, hb'⟩
      cases hb
      cases hb'

theorem terminal_placeholder {reason : Text} : Terminal (Grammar.placeholder reason) ↔ Terminal reason := by
  rw [placeholder_eq, Sentence.terminal_escape, terminal_inMetadata]

theorem unescape_placeholder (reason : Text) : Sentence.unescape (Grammar.placeholder reason) = inMetadata reason := by
  rw [placeholder_eq, Sentence.unescape_escape]

theorem opens_placeholder (reason : Text) : opens (Grammar.placeholder reason) = opens reason := by
  have hfront : opens "\x7bvoid meta: ".text = 0 := by decide
  have hback : opens "\x7d".text = 0 := by decide
  rw [placeholder_eq, Sentence.opens_escape, inMetadata, opens_append, opens_append, hfront, hback, Nat.zero_add,
    Nat.add_zero]

namespace Rules
variable {rules : Rules} {nonterminal reason a b : Text}

/-- The one alternative of a nonterminal after expansion is what became of the one it was given. -/
theorem respelled_of_single (h : rules.Regular) (hgives : rules.Gives nonterminal a)
    (hsingle : rules.expanded.alternativesFor nonterminal = [b]) :
    IsInert nonterminal ∧ ∃ made, Respelled nonterminal made a b := by
  obtain ⟨r, hr, rfl, ha⟩ := hgives
  obtain ⟨made, -, -, hall⟩ := expanded_spec h.distinct
  have hrespelled := alternativesFor_expanded hall r.nonterminal
  rw [alternativesFor_append made (List.mem_map_of_mem hr), alternativesFor_of_mem h.distinct hr (h.full r hr),
    hsingle] at hrespelled
  obtain ⟨b', hb', hab⟩ := exists_of_forall₂ hrespelled ha
  rw [List.mem_singleton.mp hb'] at hab
  exact ⟨(h.proper r hr).inert, rules ++ made, hab⟩

/-- A nonterminal that has a placeholder and nothing else conveys the reason if and only if the
    reason is conveyable. -/
theorem conveys_iff (h : rules.Regular) (hgives : rules.Gives nonterminal (Grammar.placeholder reason))
    (hsingle : rules.expanded.alternativesFor nonterminal = [b]) :
    rules.expanded.Conveys nonterminal reason ↔ Conveyable reason := by
  obtain ⟨hinert, made, hrespelled⟩ := respelled_of_single h hgives hsingle
  constructor
  · intro hconveys
    have hterminal : Terminal b := terminal_of_symbols (hconveys.terminal b (by rw [hsingle]; exact List.mem_cons_self))
    obtain ⟨sentence, s₁, hrun, hnotice⟩ := hconveys.drawn Script ⟨[]⟩
    obtain ⟨s₂, hrun'⟩ := Sentence.drawFrom_single hsingle hterminal (⟨[]⟩ : Script)
    rw [hrun'] at hrun
    cases hrun
    have hsettled : Settled (Grammar.placeholder reason) := by
      by_contra hgroups
      have hlost := hrespelled.opens_lt hinert hgroups
      have hheld : opens reason ≤ opens b := (hnotice.sublist.trans (Sentence.unescape_sublist b)).countP_le
      rw [opens_placeholder] at hlost
      omega
    rw [hrespelled.eq_of_settled hsettled] at hterminal hnotice
    rw [unescape_placeholder] at hnotice
    exact ⟨terminal_placeholder.mp hterminal, hsettled, notice_iff.mp hnotice⟩
  · intro hreason
    have hb : b = Grammar.placeholder reason := hrespelled.eq_of_settled hreason.settled
    have hterminal : Terminal b := by
      rw [hb]
      exact terminal_placeholder.mpr hreason.terminal
    refine ⟨fun a ha name => ?_, fun σ _ s => ?_⟩
    · rw [hsingle] at ha
      rw [List.mem_singleton.mp ha]
      exact hterminal.not_mem name
    · obtain ⟨s', hrun⟩ := Sentence.drawFrom_single hsingle hterminal s
      refine ⟨_, s', hrun, ?_⟩
      rw [hb, unescape_placeholder]
      exact notice_iff.mpr hreason.tellable

end Rules

/-! ## Plain reasons -/

/-- Round brackets and bars in a reason do no harm. -/
theorem conveyable_plain {reason : Text} (htrimmed : Text.trim reason = reason) (hdollar : .char '$' ∉ reason)
    (hback : .char '\\' ∉ reason) (hopen : .char '\x7b' ∉ reason) (hclose : .char '\x7d' ∉ reason) :
    Conveyable reason where
  terminal := terminal_of_not_mem hdollar
  settled := by
    rw [placeholder_eq]
    refine Sentence.settled_escape fun hmem => ?_
    rw [inMetadata, List.mem_append, List.mem_append] at hmem
    rcases hmem with (hmem | hmem) | hmem
    · exact absurd hmem (by decide)
    · exact hback hmem
    · exact absurd hmem (by decide)
  tellable := tellable_plain htrimmed hback hopen hclose

end Errand
