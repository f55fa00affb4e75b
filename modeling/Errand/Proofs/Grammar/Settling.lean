/-
  Errand.Proofs.Grammar.Settling — what expansion leaves behind.

  There is nothing to expand in an alternative if the first round bracket that opens in it is
  never closed (`Settled`). The nonterminals that expansion writes into an alternative have no
  brackets and no backslashes, so they open nothing and take nothing out of play
  (`Cut.ofText_unopened`), and what expansion makes of an alternative is settled
  (`Respelled.settled`). A settled alternative is left as it is (`Respelled.eq_of_settled`).

  Proved, for rules as they are read (`Rules.Regular`, `Grammar.read_regular`):
  (1) `Rules.expanded_settles`: all alternatives are settled in the end; the rules that were there
      keep their places, their nonterminals and the order of their alternatives; the nonterminals
      of the rules made are new. There are at most as many rules made as round brackets that open, so
      the work on them ends, and there is nothing left for a second expansion.
-/

import Errand.Grammar.Directive
import Errand.Proofs.Grammar.Merging
import Errand.Proofs.Grammar.Preservation

namespace Errand

/-! ## Settled alternatives -/

/-- No round bracket opens in the text, and its end takes nothing behind it out of play. -/
inductive Unopened : Text → Prop
  | nil : Unopened []
  | escaped {c : CodePoint} {t : Text} : Unopened t → Unopened (.char '\\' :: c :: t)
  | plain {c : CodePoint} {t : Text} : c ≠ .char '\\' → c ≠ .char '(' → Unopened t → Unopened (c :: t)

/-- The first round bracket that opens, if there is one, has no partner. -/
def Settled (t : Text) : Prop := ∀ front rest, Unopened front → t = front ++ .char '(' :: rest →
  ∀ inside after, Bracket.Balanced .round inside → rest ≠ inside ++ .char ')' :: after

namespace Cut

/-- A text in front in which nothing opens belongs to the piece before the first group. -/
theorem ofText_unopened {u : Text} (h : Unopened u) (t : Text) :
    ofText (u ++ t) = ⟨u ++ (ofText t).first, (ofText t).groups⟩ := by
  induction h with
  | nil => rfl
  | escaped _ ih =>
    rw [List.cons_append, List.cons_append, ofText, ih]
    rfl
  | @plain c u hback hopen _ ih =>
    rw [List.cons_append, ofText, ih]
    · rfl
    · exact fun d more e => absurd e hback
    · exact hopen

theorem groups_eq_nil_iff {t : Text} : (ofText t).groups = [] ↔ Settled t := by
  constructor
  · rintro h front rest hfront rfl inside after hinside rfl
    have hclosing := closing?_round_iff.mpr ⟨hinside, (rfl : inside ++ .char ')' :: after = _)⟩
    rw [ofText_unopened hfront, ofText_group hclosing] at h
    cases h
  · intro h
    generalize hk : ofText t = k
    have hcut := cutAt_iff.mpr hk
    clear hk
    induction hcut with
    | nil => rfl
    | @escaped c _ _ _ ih =>
      refine ih fun front rest hfront e => h (.char '\\' :: c :: front) rest hfront.escaped ?_
      rw [e]
      rfl
    | group hinside _ _ => exact absurd rfl (h [] _ .nil rfl _ _ hinside)
    | unclosed _ => rfl
    | @plain c t k hopen hend hcut ih =>
      by_cases hback : c = .char '\\'
      · rw [hend hback] at hcut
        cases hcut
        rfl
      · refine ih fun front rest hfront e => h _ rest (hfront.plain hback hopen) ?_
        rw [e]
        rfl

theorem first_eq_of_groups {t : Text} (h : (ofText t).groups = []) : (ofText t).first = t := by
  fun_induction ofText t with
  | case1 => rfl
  | case2 c rest ih => exact congrArg (fun t => _ :: c :: t) (ih h)
  | case3 => cases h
  | case4 => rfl
  | case5 c rest _ _ ih => exact congrArg (c :: ·) (ih h)

end Cut

/-! ## Nonterminals open nothing -/

/-- No round bracket opens in a nonterminal, and none is taken out of play. -/
def IsInert (name : Text) : Prop := ∀ c ∈ name, c ≠ .char '\\' ∧ c ≠ .char '('

theorem IsInert.unopened {name : Text} (h : IsInert name) : Unopened name := by
  induction name with
  | nil => exact .nil
  | cons c name ih =>
    obtain ⟨hback, hopen⟩ := h c List.mem_cons_self
    exact .plain hback hopen (ih fun d hd => h d (List.mem_cons_of_mem _ hd))

theorem isInert_of_all {p : CodePoint → Bool} (hback : p '\\' = false) (hopen : p '(' = false) {name : Text}
    (h : ∀ c ∈ name, p c = true) : IsInert name := by
  refine fun c hc => ⟨?_, ?_⟩
  · rintro rfl
    rw [h _ hc] at hback
    cases hback
  · rintro rfl
    rw [h _ hc] at hopen
    cases hopen

theorem IsInert.numbered {parent : Text} (h : IsInert parent) (index : Nat) : IsInert (numbered parent index) := by
  have hdigits : IsInert (decimal index) := isInert_of_all (by decide) (by decide) fun _ => isRuleChar_of_mem_decimal
  intro c hc
  rcases List.mem_append.mp hc with hc | hc
  · rcases List.mem_append.mp hc with hc | hc
    · exact h c hc
    · rw [List.mem_singleton.mp hc]
      decide
  · exact hdigits c hc

namespace Respelled
variable {parent a b : Text} {made : Rules}

/-- What expansion makes of an alternative is settled. -/
theorem settled (hp : IsInert parent) (h : Respelled parent made a b) : Settled b := by
  obtain ⟨t, ht, rfl⟩ := h
  rw [← Cut.groups_eq_nil_iff]
  generalize hk : Cut.ofText a = k at ht
  have hcut := cutAt_iff.mpr hk
  clear hk
  induction hcut generalizing t with
  | nil =>
    cases ht
    rw [List.append_nil, Cut.ofText]
  | @escaped c _ k _ ih =>
    rw [show ((k.cons c).cons '\\').first ++ t = [.char '\\', c] ++ (k.first ++ t) from rfl,
      Cut.ofText_unopened (.escaped .nil)]
    exact ih t ht
  | group _ _ ih =>
    cases ht with
    | cons _ ht =>
      rw [show (Cut.group _ _).first = [] from rfl, List.nil_append, List.append_assoc,
        Cut.ofText_unopened (hp.numbered _).unopened]
      exact ih _ ht
  | @unclosed t' hn =>
    cases ht
    rw [List.append_nil, Cut.ofText_unclosed]
    refine Option.eq_none_iff_forall_ne_some.mpr ?_
    rintro ⟨inside, after⟩ h
    obtain ⟨hb, e⟩ := closing?_round_iff.mp h
    exact hn inside after hb e
  | @plain c t' k hopen hend hcut ih =>
    by_cases hback : c = .char '\\'
    · subst hback
      rw [hend rfl] at hcut
      cases hcut
      cases ht
      rw [show (Cut.cons '\\' ⟨[], []⟩).first ++ [] = (['\\'] : Text) from rfl]
      decide +kernel
    · rw [show (k.cons c).first ++ t = [c] ++ (k.first ++ t) from rfl,
        Cut.ofText_unopened (.plain hback hopen .nil)]
      exact ih t ht

/-- A settled alternative is left as it is. -/
theorem eq_of_settled (h : Respelled parent made a b) (ha : Settled a) : b = a := by
  have hgroups := Cut.groups_eq_nil_iff.mpr ha
  obtain ⟨t, ht, rfl⟩ := h
  rw [hgroups] at ht
  cases ht
  rw [List.append_nil, Cut.first_eq_of_groups hgroups]

end Respelled

/-! ## Nothing to expand -/

theorem expandAlternatives_settled (parent : Text) (taken : List Text) (index : Nat) {alternatives : List Text}
    (h : ∀ a ∈ alternatives, Settled a) : expandAlternatives parent taken index alternatives = (alternatives, []) := by
  induction alternatives generalizing taken index with
  | nil => rfl
  | cons a rest ih =>
    obtain ⟨ha, hrest⟩ := List.forall_mem_cons.mp h
    have hgroups := Cut.groups_eq_nil_iff.mpr ha
    simp only [expandAlternatives, hgroups, nameGroups, Cut.first_eq_of_groups hgroups, ih _ _ hrest,
      List.append_nil]

namespace Rule

/-- A rule to expand: its nonterminal is inert, and it has an alternative. -/
structure Proper (r : Rule) : Prop where
  inert : IsInert r.nonterminal
  full : r.alternatives ≠ []

/-- A rule that is proper and has nothing to expand. -/
structure Done (r : Rule) : Prop extends r.Proper where
  settled : ∀ a ∈ r.alternatives, Settled a

/-- Expansion makes proper rules of proper ones. -/
theorem Proper.made {r : Rule} (h : r.Proper) (taken : List Text) (index : Nat) :
    ∀ m ∈ (expandAlternatives r.nonterminal taken index r.alternatives).2, m.Proper := by
  intro m hm
  obtain ⟨i, inside, rfl⟩ := expandAlternatives_made _ _ _ _ m hm
  exact ⟨h.inert.numbered i, alternativesIn_ne_nil inside⟩

/-- A proper rule is done once it is expanded. -/
theorem Proper.done {r : Rule} (h : r.Proper) (taken : List Text) (index : Nat) :
    Rule.Done ⟨r.nonterminal, (expandAlternatives r.nonterminal taken index r.alternatives).1⟩ := by
  have hall := expandAlternatives_respelled r.nonterminal taken index r.alternatives
  refine ⟨⟨h.inert, fun hnil => h.full ?_⟩, fun b hb => ?_⟩
  · have hlength := hall.length_eq
    rw [show (expandAlternatives r.nonterminal taken index r.alternatives).1 = [] from hnil] at hlength
    exact List.length_eq_zero_iff.mp hlength
  · obtain ⟨a, -, hab⟩ := Rules.exists_of_forall₂ (R := flip (Respelled r.nonterminal _)) hall.flip hb
    exact hab.settled h.inert

end Rule

namespace Rules

/-- Each rule that is worked on is done then, those made on the way included. -/
theorem expandFrom_done (done todo : Rules) (hdone : ∀ r ∈ done, r.Done) (htodo : ∀ r ∈ todo, r.Proper) :
    ∀ r ∈ expandFrom done todo, r.Done := by
  induction done, todo using expandFrom.induct with
  | case1 done =>
    rw [expandFrom]
    exact hdone
  | case2 done r rest e ih =>
    obtain ⟨hr, hrest⟩ := List.forall_mem_cons.mp htodo
    rw [expandFrom]
    refine ih (fun x hx => ?_) (fun x hx => ?_)
    · rcases List.mem_append.mp hx with hx | hx
      · exact hdone x hx
      · rw [List.mem_singleton.mp hx]
        exact hr.done _ _
    · rcases List.mem_append.mp hx with hx | hx
      · exact hrest x hx
      · exact hr.made _ _ x hx

/-- One rule leaves the work in each round, and no more come than the weight allows. -/
theorem length_expandFrom_le (done todo : Rules) : (expandFrom done todo).length ≤ done.length + weight todo := by
  induction done, todo using expandFrom.induct with
  | case1 done =>
    rw [expandFrom]
    exact Nat.le_add_right _ _
  | case2 done r rest e ih =>
    have hmade : weight e.2 ≤ totalOpens r.alternatives := weight_expandAlternatives_le _ _ _ _
    rw [expandFrom]
    show (expandFrom (done ++ [⟨r.nonterminal, e.1⟩]) (rest ++ e.2)).length ≤ _
    rw [weight_append, List.length_append, List.length_singleton] at ih
    rw [weight_cons]
    omega

theorem expandFrom_of_settled (done todo : Rules) (h : ∀ r ∈ todo, ∀ a ∈ r.alternatives, Settled a) :
    expandFrom done todo = done ++ todo := by
  induction todo generalizing done with
  | nil => rw [expandFrom, List.append_nil]
  | cons r rest ih =>
    obtain ⟨hr, hrest⟩ := List.forall_mem_cons.mp h
    rw [expandFrom]
    simp only [expandAlternatives_settled _ _ _ hr, List.append_nil]
    rw [ih _ hrest, List.append_assoc]
    rfl

/-! ## Rules as they are read -/

/-- A dollar sign and characters that a nonterminal may have, where it is written or where a
    file is mounted under it. -/
def IsNonterminal (name : Text) : Prop :=
  ∃ w, name = .char '$' :: w ∧ w ≠ [] ∧ ∀ c ∈ w, Directive.isMountChar c = true

/-- The rules are called by nonterminals. -/
def WellNamed (rules : Rules) : Prop := ∀ name ∈ names rules, IsNonterminal name

/-- One rule for each nonterminal, and an alternative in each. -/
structure Regular (rules : Rules) : Prop where
  distinct : (names rules).Nodup
  named : WellNamed rules
  full : Full rules

theorem WellNamed.merge {rules : Rules} {rule : Rule} (h : WellNamed rules) (hrule : IsNonterminal rule.nonterminal) :
    WellNamed (rules.merge rule) := by
  intro name hname
  rw [names_merge] at hname
  split at hname
  · exact h name hname
  · rcases List.mem_append.mp hname with hname | hname
    · exact h name hname
    · rw [List.mem_singleton.mp hname]
      exact hrule

theorem IsNonterminal.isInert {name : Text} (h : IsNonterminal name) : IsInert name := by
  obtain ⟨w, rfl, -, hw⟩ := h
  have hrest : IsInert w := isInert_of_all (by decide) (by decide) hw
  intro c hc
  rcases List.mem_cons.mp hc with rfl | hc
  · decide
  · exact hrest c hc

theorem Regular.proper {rules : Rules} (h : rules.Regular) : ∀ r ∈ rules, r.Proper :=
  fun r hr => ⟨(h.named _ (List.mem_map_of_mem hr)).isInert, h.full r hr⟩

end Rules

namespace Directive

theorem isNonterminal_of_mount {t name : Text} (h : mount? t = some name) : Rules.IsNonterminal name := by
  simp only [mount?, Option.bind_eq_bind, Option.bind_eq_some_iff] at h
  obtain ⟨u, -, v, -, w, -, h⟩ := h
  split at h
  · split at h
    · rename_i rest hmount
      simp only [Bool.and_eq_true, Bool.not_eq_true', List.isEmpty_eq_false_iff] at hmount
      cases h
      exact ⟨rest.takeWhile isMountChar, rfl, hmount.1, fun c => List.all_eq_true.mp List.all_takeWhile c⟩
    · cases h
  · cases h

theorem isNonterminal_of_inclusion {comment name : Text} {i : Inclusion} (h : inclusion? comment = some i)
    (hname : name ∈ i.mount) : Rules.IsNonterminal name := by
  simp only [inclusion?, Option.bind_eq_bind, Option.bind_eq_some_iff] at h
  obtain ⟨rest, -, rest', -, h⟩ := h
  obtain ⟨found, -, h⟩ := List.exists_of_findSome?_eq_some h
  obtain ⟨⟨target, after⟩, -, h⟩ := Option.bind_eq_some_iff.mp h
  simp only [completed?] at h
  split at h
  · rename_i mounted hmount
    cases h
    cases hname
    exact isNonterminal_of_mount hmount
  · split at h
    · cases h
      cases hname
    · cases h

end Directive

namespace Grammar

theorem isNonterminal_of_line {code : Text} {rule : Rule} (h : Rule.read? code = some rule) :
    Rules.IsNonterminal rule.nonterminal := by
  rw [Rule.read?] at h
  split at h
  · rename_i rest _
    dsimp only at h
    split at h
    · split at h
      · cases h
      · rename_i hproper
        simp only [Bool.or_eq_true, not_or, Bool.not_eq_true, List.isEmpty_eq_false_iff] at hproper
        cases h
        refine ⟨rest.takeWhile isRuleChar, rfl, hproper.1.1, fun c hc => ?_⟩
        rw [Directive.isMountChar, isRuleChar_of_mem_takeWhile hc]
        rfl
    · cases h
  · cases h

/-- The rules that are read are such as expansion wants them. -/
theorem read_regular {d : Disk} {log log' : Log} {path : Option Text} {t : Text} {c : Contents}
    (h : (read d path t).run log = (.ok c, log')) : Rules.Regular c.rules := by
  have hkept : Kept Rules.WellNamed fun rule => Rules.IsNonterminal rule.nonterminal :=
    { member := fun rules hrules rule hr => hrules _ (List.mem_map_of_mem hr)
      merge := fun rules rule hr hrule => hr.merge hrule
      line := fun code rule => isNonterminal_of_line
      mount := fun comment i hi name hname a => Directive.isNonterminal_of_inclusion hi hname }
  exact ⟨read_distinct h, read_keeps hkept (fun name hname => by cases hname) h, read_full h⟩

end Grammar

namespace Rules

/-- Expansion ends, with at most as many rules made as round brackets open in all alternatives.
    The rules that were there stand in front as they did, each alternative in its place with
    nonterminals for its groups, and without a change if it was settled. The nonterminals of the rules made
    behind them are new and different. Every rule has an alternative, every alternative is
    settled, and to expand once more changes nothing. -/
theorem expanded_settles {rules : Rules} (h : rules.Regular) : ∃ made : Rules,
    names rules.expanded = names rules ++ names made ∧ (names rules.expanded).Nodup ∧
    made.length ≤ totalOpens (rules.flatMap (·.alternatives)) ∧
    List.Forall₂ (Expanded (rules ++ made)) (rules ++ made) rules.expanded ∧
    List.Forall₂ (fun r e => List.Forall₂ (fun a b => Settled a → b = a) r.alternatives e.alternatives)
      (rules ++ made) rules.expanded ∧
    (∀ r ∈ rules.expanded, r.alternatives ≠ [] ∧ ∀ a ∈ r.alternatives, Settled a) ∧
    rules.expanded.expanded = rules.expanded := by
  obtain ⟨made, hnodup, -, hall⟩ := expanded_spec h.distinct
  have hnames := names_expanded hall
  have hdone : ∀ r ∈ rules.expanded, r.Done := expandFrom_done [] rules (fun r hr => by cases hr) h.proper
  refine ⟨made, ?_, ?_, ?_, hall, ?_, fun r hr => ⟨(hdone r hr).full, (hdone r hr).settled⟩, ?_⟩
  · rw [hnames, names_append]
  · rw [hnames]
    exact hnodup
  · have hlength := hall.length_eq
    have hle := length_expandFrom_le [] rules
    rw [← expanded, ← hlength, List.length_append, weight, List.length_nil] at hle
    omega
  · exact hall.imp fun r e hre => hre.2.imp fun a b hab => hab.eq_of_settled
  · exact expandFrom_of_settled [] _ fun r hr => (hdone r hr).settled

/-- Brackets out of play, a group in a group, a name that is taken, and brackets that never close. -/
def knots : Rules :=
  [⟨"$Main".text, ["\\(x (a|(b|) c) $Main_0".text, "(d) (e (f".text, "g".text]⟩, ⟨"$Main_0".text, ["h".text]⟩]

theorem knots_regular : knots.Regular := by
  have hfull : ∀ r ∈ knots, r.alternatives ≠ [] := by decide
  refine ⟨by decide, fun name hname => ?_, hfull⟩
  rcases List.mem_cons.mp hname with rfl | hname
  · exact ⟨"Main".text, rfl, by decide, by decide⟩
  · rw [List.mem_singleton.mp hname]
    exact ⟨"Main_0".text, rfl, by decide, by decide⟩

theorem expanded_settles_knots : knots.Regular ∧
    knots.expanded.map (fun r => (r.nonterminal, r.alternatives)) =
      [("$Main".text, ["\\(x $Main_1 $Main_0".text, "$Main_2 (e (f".text, "g".text]),
        ("$Main_0".text, ["h".text]), ("$Main_1".text, ["a".text, "$Main_1_0 c".text]),
        ("$Main_2".text, ["d".text]), ("$Main_1_0".text, ["b".text, []])] ∧
    (∀ r ∈ knots.expanded, r.alternatives ≠ [] ∧ ∀ a ∈ r.alternatives, Settled a) ∧
    knots.expanded.expanded = knots.expanded := by
  obtain ⟨made, -, -, -, -, -, hsettled, hagain⟩ := expanded_settles knots_regular
  exact ⟨knots_regular, by cbv, hsettled, hagain⟩

end Rules

end Errand
