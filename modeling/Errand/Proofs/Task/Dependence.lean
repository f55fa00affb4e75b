/-
  Errand.Proofs.Task.Dependence — which groups are bound.

  A group with references waits until all of them are bound; groups are tried in rounds, one
  after the other, and what is bound early in a round counts for those behind it. Whatever
  the order, the groups that are bound in the end, pronouns left out, are the least set with
  each group that has a known name and refers to groups of the set only (`Resolvable`).

  Proved, for any groups with different keycodes and every run that ends well:
  - `bindAll_resolves`: a group is bound if and only if it is in that set or is a pronoun, and
    nothing else is bound; the rounds allowed are enough.
  - `not_resolvable`: a group that leads to a cycle, to a reference that names no group, or to
    a group of pronouns or of an unknown name is not in it.
  - `resolvable_perm`: the order of the groups makes no difference.
  - `settle_rounds_eq`: more rounds than there are waiting groups change nothing.

  One round binds a group or changes nothing (`bindWaiting_round`). So when the rounds are
  over, each group that waits has a reference that is not bound (`settle_stuck`).
-/

import Errand.Proofs.Task.Constraints
import Mathlib

namespace Errand.Resolver

/-! ## The end of a run -/

section
variable {σ : Type} [RandomSource σ] {store : Store} {r r' : Resolver σ} {bound bound' : Bindings}

theorem isSome_mono {k : Text} (hp : bound <+: bound') (h : (bound.lookup k).isSome = true) :
    (bound'.lookup k).isSome = true := by
  obtain ⟨more, rfl⟩ := hp
  obtain ⟨shown, hs⟩ := Option.isSome_iff_exists.mp h
  rw [lookup_append_of_some hs]
  rfl

theorem isSome_bound (bound : Bindings) (k : Text) (shown : Shown) :
    ((bound ++ [(k, shown)]).lookup k).isSome = true :=
  isSome_lookup_iff.mpr (List.mem_map_of_mem (List.mem_append_right bound (List.mem_singleton_self (k, shown))))

theorem bindReady_bound {ready : List Waiting} (h : (bindReady store ready bound).run r = (.ok bound', r')) :
    bound <+: bound' ∧ ∀ w ∈ ready, (bound'.lookup w.1.keycode).isSome = true := by
  induction ready generalizing bound r with
  | nil =>
    obtain ⟨rfl, -⟩ := run_pure_eq_ok.mp h
    exact ⟨List.prefix_refl _, fun w hw => by cases hw⟩
  | cons w rest ih =>
    obtain ⟨g, d⟩ := w
    obtain ⟨shown, r₁, -, hrest⟩ := bindReady_cons h
    obtain ⟨hmore, hbound⟩ := ih hrest
    refine ⟨(List.prefix_append _ _).trans hmore, fun w hw => ?_⟩
    rcases List.mem_cons.mp hw with rfl | hw
    · exact isSome_mono hmore (isSome_bound bound g.keycode shown)
    · exact hbound w hw

/-- A group that cannot be substituted has a reference that is not bound. -/
theorem exists_unbound {g : Group} (h : g.clauses.mapM (substitute bound) = none) :
    ∃ k ∈ g.references, bound.lookup k = none := by
  rw [Group.references_eq]
  exact substituteAll_eq_none_iff.mp h

/-- In a round groups are bound or wait on; if none is bound, none could be. -/
theorem bindWaiting_round {waiting left : List Waiting}
    (h : (bindWaiting store waiting bound).run r = (.ok (bound', left), r')) :
    bound <+: bound' ∧ left.length ≤ waiting.length ∧
      (∀ w ∈ waiting, w ∈ left ∨ (bound'.lookup w.1.keycode).isSome = true) ∧
      (left.length = waiting.length → bound' = bound ∧ ∀ w ∈ waiting, ∃ k ∈ w.1.references, bound.lookup k = none) := by
  induction waiting generalizing bound r left with
  | nil =>
    obtain ⟨e, -⟩ := run_pure_eq_ok.mp h
    cases e
    exact ⟨List.prefix_refl _, Nat.le_refl _, by simp, fun _ => ⟨rfl, by simp⟩⟩
  | cons w rest ih =>
    obtain ⟨g, d⟩ := w
    rcases bindWaiting_cons h with ⟨hnone, more, rfl, hrest⟩ | ⟨clauses, shown, r₁, -, -, hrest⟩
    · obtain ⟨hmore, hlength, hbound, hsame⟩ := ih hrest
      refine ⟨hmore, Nat.succ_le_succ hlength, fun w hw => ?_, fun he => ?_⟩
      · rcases List.mem_cons.mp hw with rfl | hw
        · exact Or.inl List.mem_cons_self
        · exact (hbound w hw).imp (List.mem_cons_of_mem _) id
      · obtain ⟨rfl, hstuck⟩ := hsame (Nat.succ.inj he)
        refine ⟨rfl, fun w hw => ?_⟩
        rcases List.mem_cons.mp hw with rfl | hw
        · exact exists_unbound hnone
        · exact hstuck w hw
    · obtain ⟨hmore, hlength, hbound, -⟩ := ih hrest
      refine ⟨(List.prefix_append _ _).trans hmore, Nat.le_succ_of_le hlength, fun w hw => ?_, fun he => ?_⟩
      · rcases List.mem_cons.mp hw with rfl | hw
        · exact Or.inr (isSome_mono hmore (isSome_bound bound g.keycode shown))
        · exact hbound w hw
      · rw [List.length_cons] at he
        omega

/-- When the rounds are over, each group is bound or has a reference that is not. -/
theorem settle_stuck {most : Nat} {waiting : List Waiting} (hmost : waiting.length ≤ most)
    (h : (settle store most waiting bound).run r = (.ok bound', r')) :
    bound <+: bound' ∧ ∀ w ∈ waiting, (bound'.lookup w.1.keycode).isSome = true ∨
      ∃ k ∈ w.1.references, bound'.lookup k = none := by
  induction most generalizing waiting bound r with
  | zero =>
    obtain ⟨rfl, -⟩ := run_pure_eq_ok.mp h
    rw [List.eq_nil_of_length_eq_zero (Nat.le_zero.mp hmost)]
    exact ⟨List.prefix_refl _, fun w hw => by cases hw⟩
  | succ most ih =>
    rcases settle_succ h with ⟨rfl, rfl, -⟩ | ⟨bound₁, left, r₁, hround, hend⟩
    · exact ⟨List.prefix_refl _, fun w hw => by cases hw⟩
    · obtain ⟨hmore, hlength, hbound, hsame⟩ := bindWaiting_round hround
      rcases hend with ⟨he, rfl, -⟩ | ⟨hne, hnext⟩
      · obtain ⟨rfl, hstuck⟩ := hsame he
        exact ⟨hmore, fun w hw => Or.inr (hstuck w hw)⟩
      · obtain ⟨hmore', hrest⟩ := ih (by omega) hnext
        refine ⟨hmore.trans hmore', fun w hw => ?_⟩
        rcases hbound w hw with hw | hw
        · exact hrest w hw
        · exact Or.inl (isSome_mono hmore' hw)

theorem settle_nil (most : Nat) : (settle store most [] bound : Resolving σ Bindings) = pure bound := by
  cases most <;> rfl

theorem settle_rounds_eq {m n : Nat} {waiting : List Waiting} (hm : waiting.length ≤ m) (hn : waiting.length ≤ n) :
    (settle store m waiting bound).run r = (settle store n waiting bound).run r := by
  induction m generalizing n waiting bound r with
  | zero =>
    rw [List.eq_nil_of_length_eq_zero (Nat.le_zero.mp hm), settle_nil, settle_nil]
  | succ m ih =>
    cases n with
    | zero => rw [List.eq_nil_of_length_eq_zero (Nat.le_zero.mp hn), settle_nil, settle_nil]
    | succ n =>
      rw [settle, settle]
      by_cases hw : waiting.isEmpty = true
      · rw [if_pos hw, if_pos hw]
      · rw [if_neg hw, if_neg hw]
        rcases hround : (bindWaiting store waiting bound).run r with ⟨f | ⟨bound₁, left⟩, r₁⟩
        · rw [run_bind_error hround, run_bind_error hround]
        · rw [run_bind_ok hround, run_bind_ok hround]
          obtain ⟨-, hlength, -, -⟩ := bindWaiting_round hround
          dsimp only
          by_cases hl : left.length = waiting.length
          · rw [if_pos hl, if_pos hl]
          · rw [if_neg hl, if_neg hl]
            exact ih (by omega) (by omega)

end

/-! ## Resolvable groups -/

/-- A group with a name that can be bound: one for entities, or void. -/
def IsBindable (g : Group) : Prop := g.name = "void".text ∨ g.name ∈ domainNames.map Prod.fst

/-- A group has a keycode in a clause of one of its members. -/
def Mentions (g : Group) (keycode : Text) : Prop := ∃ w ∈ g.members, ∃ c ∈ w.clause, keycode ∈ references c

/-- The groups with a name that can be bound and nothing but groups of a set mentioned. -/
def resting (groups : List Group) : Set Group →o Set Group where
  toFun S := {g | g ∈ groups ∧ IsBindable g ∧ ∀ k, Mentions g k → ∃ g' ∈ S, g'.keycode = k}
  monotone' := by
    intro S T hST g hg
    obtain ⟨hmem, hname, hrefs⟩ := hg
    refine ⟨hmem, hname, fun k hk => ?_⟩
    obtain ⟨g', hg', he⟩ := hrefs k hk
    exact ⟨g', hST hg', he⟩

/-- The least set that has each group with a name that can be bound and nothing but groups of
    the set mentioned. -/
def Resolvable (groups : List Group) : Set Group := OrderHom.lfp (resting groups)

theorem mem_references_iff {g : Group} {k : Text} : k ∈ g.references ↔ Mentions g k := by
  rw [Group.references_eq, List.mem_flatMap]
  constructor
  · rintro ⟨c, hc, hk⟩
    obtain ⟨-, w, hw, he⟩ := Group.mem_clauses.mp hc
    exact ⟨w, hw, c, he, hk⟩
  · rintro ⟨w, hw, c, he, hk⟩
    refine ⟨c, Group.mem_clauses.mpr ⟨?_, w, hw, he⟩, hk⟩
    rintro rfl
    rw [references_nil] at hk
    cases hk

theorem isBindable_iff {g : Group} : IsBindable g ↔ ∃ d, demand? g = some d := by
  constructor
  · rintro (hvoid | hname)
    · exact ⟨.nothing, by rw [demand?, if_pos hvoid]⟩
    · obtain ⟨d, hd⟩ := Option.isSome_iff_exists.mp (isSome_lookup_iff.mpr hname)
      obtain ⟨wish, hwish, -⟩ := demand?_of_domain hd
      exact ⟨_, hwish⟩
  · rintro ⟨d, hd⟩
    by_cases hvoid : g.name = "void".text
    · exact Or.inl hvoid
    · rw [demand?, if_neg hvoid] at hd
      obtain ⟨wish, hwish, -⟩ := Option.map_eq_some_iff.mp hd
      exact Or.inr (List.mem_map_of_mem (mem_of_lookup (Wish.ofName?_spec hwish).1))

theorem mem_resolvable_iff {groups : List Group} {g : Group} : g ∈ Resolvable groups ↔
    g ∈ groups ∧ IsBindable g ∧ ∀ k, Mentions g k → ∃ g' ∈ Resolvable groups, g'.keycode = k := by
  have hfix : resting groups (Resolvable groups) = Resolvable groups := OrderHom.map_lfp _
  constructor
  · intro h
    rw [← hfix] at h
    exact h
  · intro h
    rw [← hfix]
    exact h

section
variable {σ : Type} [RandomSource σ] {store : Store} {r r' : Resolver σ} {groups : List Group} {bound : Bindings}

/-- All keycodes that are bound belong to groups of the set. -/
def OnlyResolvable (groups : List Group) (bound : Bindings) (_ : Resolver σ) : Prop :=
  ∀ k, (bound.lookup k).isSome = true → ∃ g ∈ Resolvable groups, g.keycode = k

theorem onlyResolvable_keeps : Keeps store groups (OnlyResolvable (σ := σ) groups) := by
  intro g d bound clauses shown r r' hg hc _ hi k hk
  rw [List.lookup_append] at hk
  rcases hb : bound.lookup k with _ | x
  · have hkey : k = g.keycode := by
      rw [hb] at hk
      exact List.mem_singleton.mp (isSome_lookup_iff.mp hk)
    refine ⟨g, mem_resolvable_iff.mpr ⟨(mem_demandsOf.mp hg).1, ?_, fun j hj => hi j ?_⟩, hkey.symm⟩
    · exact isBindable_iff.mpr ⟨d, (mem_demandsOf.mp hg).2⟩
    · rw [← mem_references_iff, Group.references_eq] at hj
      by_contra hn
      rw [Bool.not_eq_true, Option.isSome_eq_false_iff, Option.isNone_iff_eq_none] at hn
      rw [substituteAll_eq_none_iff.mpr ⟨j, hj, hn⟩] at hc
      cases hc
  · exact hi k (by rw [hb]; rfl)

/-- When the work is over, every group of the set is bound. -/
theorem resolvable_bound {named bound₀ : Bindings} {r₀ : Resolver σ}
    (hready : (bindReady store (readyOf groups) []).run r = (.ok bound₀, r₀))
    (hsettled : (settle store (waitingOf groups).length (waitingOf groups) bound₀).run r₀ = (.ok named, r')) :
    ∀ g ∈ Resolvable groups, (named.lookup g.keycode).isSome = true := by
  obtain ⟨-, hbound⟩ := bindReady_bound hready
  obtain ⟨hmore, hstuck⟩ := settle_stuck (Nat.le_refl _) hsettled
  have hclosed : Resolvable groups ≤ {g | g ∈ groups ∧ (named.lookup g.keycode).isSome = true} := by
    refine OrderHom.lfp_le _ fun g hg => ?_
    obtain ⟨hmem, hname, hrefs⟩ := hg
    obtain ⟨d, hd⟩ := isBindable_iff.mp hname
    refine ⟨hmem, ?_⟩
    rcases mem_demandsOf_iff.mp (mem_demandsOf.mpr ⟨hmem, hd⟩) with hw | hw
    · exact isSome_mono hmore (hbound _ hw)
    · rcases hstuck _ hw with hs | ⟨k, hk, hnone⟩
      · exact hs
      · obtain ⟨g', ⟨-, hs⟩, rfl⟩ := hrefs k (mem_references_iff.mp hk)
        rw [hnone] at hs
        cases hs
  exact fun g hg => (hclosed hg).2

/-! ## Groups that are never bound -/

/-- A group mentions another one. -/
def Refers (groups : List Group) (g g' : Group) : Prop := g ∈ groups ∧ g' ∈ groups ∧ Mentions g g'.keycode

/-- A group leads back to itself, or mentions what names no group or a group that cannot be
    mentioned: of pronouns, or with an unknown name. -/
def Blocked (groups : List Group) (g : Group) : Prop :=
  Relation.TransGen (Refers groups) g g ∨ (∃ k, Mentions g k ∧ ∀ g' ∈ groups, g'.keycode ≠ k) ∨
    ∃ g', Refers groups g g' ∧ ¬IsBindable g'

theorem not_resolvable (hdistinct : (groups.map Group.keycode).Nodup) {g g' : Group}
    (hlead : Relation.ReflTransGen (Refers groups) g g') (hblocked : Blocked groups g') :
    g ∉ Resolvable groups := by
  have hclosed : Resolvable groups ≤ {g | g ∈ groups ∧ IsBindable g ∧
      ∀ g', Relation.ReflTransGen (Refers groups) g g' → ¬Blocked groups g'} := by
    refine OrderHom.lfp_le _ fun g hg => ?_
    obtain ⟨hmem, hname, hrefs⟩ := hg
    have hnext : ∀ g₁, Refers groups g g₁ → IsBindable g₁ ∧
        ∀ g', Relation.ReflTransGen (Refers groups) g₁ g' → ¬Blocked groups g' := by
      intro g₁ hg₁
      obtain ⟨g₂, ⟨hmem₂, hname₂, hfree⟩, he⟩ := hrefs _ hg₁.2.2
      rw [List.inj_on_of_nodup_map hdistinct hmem₂ hg₁.2.1 he] at hname₂ hfree
      exact ⟨hname₂, hfree⟩
    refine ⟨hmem, hname, fun g' hlead hb => ?_⟩
    rcases Relation.ReflTransGen.cases_head hlead with rfl | ⟨g₁, hg₁, hrest⟩
    · rcases hb with hcycle | ⟨k, hk, hno⟩ | ⟨g₁, hg₁, hunknown⟩
      · obtain ⟨g₁, hg₁, hback⟩ := Relation.TransGen.head'_iff.mp hcycle
        exact (hnext g₁ hg₁).2 g hback (Or.inl hcycle)
      · obtain ⟨g₁, ⟨hmem₁, -⟩, he⟩ := hrefs k hk
        exact hno g₁ hmem₁ he
      · exact hunknown (hnext g₁ hg₁).1
    · exact (hnext g₁ hg₁).2 g' hrest hb
  exact fun hg => (hclosed hg).2.2 g' hlead hblocked

theorem resolvable_perm {groups' : List Group} (h : groups'.Perm groups) : Resolvable groups' = Resolvable groups := by
  have hsame : resting groups' = resting groups := by
    refine OrderHom.ext _ _ (funext fun S => Set.ext fun g => ?_)
    exact and_congr_left fun _ => h.mem_iff
  rw [Resolvable, hsame, Resolvable]

theorem mem_pronounsOf {named : Bindings} {occurrences : List Occurrence} {k : Text} :
    ((pronounsOf named groups occurrences).lookup k).isSome = true ↔
      ∃ g ∈ groups, isPronoun g = true ∧ g.keycode = k := by
  rw [isSome_lookup_iff, pronounsOf, List.map_map, List.mem_map]
  constructor
  · rintro ⟨g, hg, rfl⟩
    obtain ⟨hmem, hp⟩ := List.mem_filter.mp hg
    exact ⟨g, hmem, hp, rfl⟩
  · rintro ⟨g, hmem, hp, rfl⟩
    exact ⟨g, List.mem_filter.mpr ⟨hmem, hp⟩, rfl⟩

/-- Exactly the groups of the least set and those of pronouns are bound in the end. -/
theorem bindAll_resolves {occurrences : List Occurrence} (hdistinct : (groups.map Group.keycode).Nodup)
    (h : (bindAll store groups occurrences).run r = (.ok bound, r')) :
    (∀ g ∈ groups, (bound.lookup g.keycode).isSome = true ↔ g ∈ Resolvable groups ∨ isPronoun g = true) ∧
    (∀ k, (bound.lookup k).isSome = true → ∃ g ∈ groups, g.keycode = k) ∧
    (∀ g g', isPronoun g = false → g ∈ groups → Relation.ReflTransGen (Refers groups) g g' → Blocked groups g' →
      bound.lookup g.keycode = none) ∧
    (∀ groups' : List Group, groups'.Perm groups → Resolvable groups' = Resolvable groups) ∧
    ∀ (most : Nat) (bound₀ : Bindings) (r₀ : Resolver σ), (waitingOf groups).length ≤ most →
      (settle store most (waitingOf groups) bound₀).run r₀ =
        (settle store (waitingOf groups).length (waitingOf groups) bound₀).run r₀ := by
  have hnothing : OnlyResolvable groups [] r := fun k hk => by cases hk
  obtain ⟨bound₀, r₀, named, hready, hsettled, honly, rfl⟩ :=
    bindAll_invariant onlyResolvable_keeps (fun _ _ _ hi => hi) h hnothing
  -- what is bound belongs to the set or to a group of pronouns
  have howner : ∀ k, ((named ++ pronounsOf named groups occurrences).lookup k).isSome = true →
      ∃ g ∈ groups, g.keycode = k ∧ (g ∈ Resolvable groups ∨ isPronoun g = true) := by
    intro k hs
    rw [List.lookup_append, Option.isSome_or, Bool.or_eq_true] at hs
    rcases hs with hs | hs
    · obtain ⟨g, hg, he⟩ := honly k hs
      exact ⟨g, (mem_resolvable_iff.mp hg).1, he, Or.inl hg⟩
    · obtain ⟨g, hg, hp, he⟩ := mem_pronounsOf.mp hs
      exact ⟨g, hg, he, Or.inr hp⟩
  have hiff : ∀ g ∈ groups, ((named ++ pronounsOf named groups occurrences).lookup g.keycode).isSome = true ↔
      g ∈ Resolvable groups ∨ isPronoun g = true := by
    intro g hg
    constructor
    · intro hs
      obtain ⟨g', hg', he, hor⟩ := howner _ hs
      rwa [List.inj_on_of_nodup_map hdistinct hg' hg he] at hor
    · rw [List.lookup_append, Option.isSome_or, Bool.or_eq_true]
      rintro (hr | hp)
      · exact Or.inl (resolvable_bound hready hsettled g hr)
      · exact Or.inr (mem_pronounsOf.mpr ⟨g, hg, hp, rfl⟩)
  refine ⟨hiff, fun k hs => ?_, fun g g' hp hg hlead hblocked => ?_, fun groups' => resolvable_perm, ?_⟩
  · obtain ⟨g, hg, he, -⟩ := howner k hs
    exact ⟨g, hg, he⟩
  · have hno : ¬(g ∈ Resolvable groups ∨ isPronoun g = true) := by
      rintro (hr | hp')
      · exact not_resolvable hdistinct hlead hblocked hr
      · rw [hp] at hp'
        cases hp'
    rw [← hiff g hg, Bool.not_eq_true, Option.isSome_eq_false_iff, Option.isNone_iff_eq_none] at hno
    exact hno
  · exact fun most bound₀ r₀ hmost => settle_rounds_eq hmost (Nat.le_refl _)

end

/-- The second group mentions the first one, the third one mentions itself. -/
def knots : List Occurrence :=
  ((scan ("\x7bobject 1\x7d, \x7bobject 2 where name != \x7bobject 1\x7d\x7d, ".text ++
    "\x7bobject 3 where name != \x7bobject 3\x7d\x7d, \x7bpron 4\x7d".text)).run 1).1.toOption.elim [] Found.all

theorem bindAll_resolves_knots : ((Group.ofOccurrences knots).map Group.keycode).Nodup ∧
    (∃ bound r', (bindAll pantry (Group.ofOccurrences knots) knots).run (start pantry .high (⟨[]⟩ : Script) 1) =
      (.ok bound, r')) ∧
    ∀ g ∈ Group.ofOccurrences knots, isPronoun g = false →
      (g ∈ Resolvable (Group.ofOccurrences knots) ↔ g.keycode = "object0001".text ∨ g.keycode = "object0002".text) := by
  have hdistinct := (Group.grouped_ofOccurrences knots).distinct
  have hkeys : ((bindAll pantry (Group.ofOccurrences knots) knots).run
      (start pantry .high (⟨[]⟩ : Script) 1)).1.toOption.map (fun bound => bound.map Prod.fst) =
      some ["object0001".text, "object0002".text, "pron0004".text] := by decide +kernel
  have hpron : ∀ g ∈ Group.ofOccurrences knots, isPronoun g = false → g.keycode ≠ "pron0004".text := by
    decide +kernel
  obtain ⟨bound, r', hrun, hbound⟩ := ok_of_toOption hkeys
  refine ⟨hdistinct, ⟨bound, r', hrun⟩, fun g hg hp => ?_⟩
  have hiff := (bindAll_resolves hdistinct hrun).1 g hg
  rw [isSome_lookup_iff, hbound, hp] at hiff
  simp only [List.mem_cons, List.not_mem_nil, or_false, hpron g hg hp, Bool.false_eq_true] at hiff
  exact hiff.symm

end Errand.Resolver
