/-
  Errand.Grammar.Expansion — bracketed groups made into rules of their own.

  Each group outside others is replaced by a new nonterminal, named after the one
  it stands under and a number; its alternatives become the rule of that
  nonterminal, in which groups are replaced in turn. After that no alternative
  holds a group. A round bracket that is never closed is text, and so is all that
  follows it.
-/

import Errand.Grammar.Rule

namespace Errand

/-! ## Groups of an alternative -/

/-- An alternative cut at its groups: the text before the first one, and of each
    group its inside and the text behind it. -/
structure Cut where
  first : Text
  groups : List (Text × Text)

namespace Cut

/-- A character in front. -/
def cons (c : CodePoint) (k : Cut) : Cut := ⟨c :: k.first, k.groups⟩

/-- A group in front. -/
def group (inside : Text) (k : Cut) : Cut := ⟨[], (inside, k.first) :: k.groups⟩

/-- The cut of a text. A backslash takes the next character out of play. -/
def ofText : Text → Cut
  | [] => ⟨[], []⟩
  | .char '\\' :: c :: rest => ((ofText rest).cons c).cons '\\'
  | .char '(' :: rest =>
    match _h : Bracket.closing? .round rest with
    | some (inside, after) => (ofText after).group inside
    | none => ⟨'(' :: rest, []⟩
  | c :: rest => (ofText rest).cons c
termination_by t => t.length
decreasing_by
  · simp only [List.length_cons]; omega
  · rw [Bracket.closing?_eq _h]; simp only [List.length_cons, List.length_append]; omega
  · simp only [List.length_cons]; omega

end Cut

/-! ## New nonterminals -/

/-- The nonterminal of a group: its parent's name and a number. -/
def numbered (parent : Text) (index : Nat) : Text := parent ++ "_".text ++ decimal index

/-- The first number from `index` on whose nonterminal is not taken, among as
    many as there are names to pass. -/
def freeIndex (parent : Text) (taken : List Text) : (tries : Nat) → (index : Nat) → Nat
  | 0, index => index
  | tries + 1, index =>
    if taken.contains (numbered parent index) then freeIndex parent taken tries (index + 1)
    else index

/-- Names the groups of an alternative: the text from the first group on, the
    rules made, and the next number to try. -/
def nameGroups (parent : Text) :
    (taken : List Text) → (index : Nat) → List (Text × Text) → Text × Rules × Nat
  | _, index, [] => ([], [], index)
  | taken, index, (inside, after) :: rest =>
    let k := freeIndex parent taken taken.length index
    let name := numbered parent k
    let later := nameGroups parent (name :: taken) (k + 1) rest
    (name ++ after ++ later.1, ⟨name, alternativesIn inside⟩ :: later.2.1, later.2.2)

/-- Names the groups of all alternatives in turn. -/
def expandAlternatives (parent : Text) :
    (taken : List Text) → (index : Nat) → List Text → List Text × Rules
  | _, _, [] => ([], [])
  | taken, index, a :: rest =>
    let cut := Cut.ofText a
    let here := nameGroups parent taken index cut.groups
    let later := expandAlternatives parent (Rules.names here.2.1 ++ taken) here.2.2 rest
    ((cut.first ++ here.1) :: later.1, here.2.1 ++ later.2)

/-! ## Brackets are used up -/

def opens (t : Text) : Nat := t.countP (· == CodePoint.char '(')

def totalOpens (ts : List Text) : Nat := opens ts.flatten

theorem opens_trim_le (t : Text) : opens (Text.trim t) ≤ opens t :=
  (Text.trim_sublist t).countP_le

@[simp] theorem totalOpens_nil : totalOpens [] = 0 := rfl

theorem totalOpens_cons (t : Text) (ts : List Text) : totalOpens (t :: ts) = opens t + totalOpens ts := by
  rw [totalOpens, List.flatten_cons, opens, List.countP_append]
  rfl

theorem totalOpens_append (as bs : List Text) :
    totalOpens (as ++ bs) = totalOpens as + totalOpens bs := by
  rw [totalOpens, List.flatten_append, opens, List.countP_append]
  rfl

theorem totalOpens_flatMap_le {f : Text → List Text} {ts : List Text}
    (h : ∀ t ∈ ts, totalOpens (f t) ≤ opens t) : totalOpens (ts.flatMap f) ≤ totalOpens ts := by
  induction ts with
  | nil => simp [totalOpens]
  | cons t ts ih =>
    have h₁ := h t (by simp)
    have h₂ := ih fun t ht => h t (by simp [ht])
    rw [List.flatMap_cons, totalOpens_append, totalOpens_cons]
    omega

theorem totalOpens_alternativesIn_le (t : Text) : totalOpens (alternativesIn t) ≤ opens t := by
  rw [alternativesIn_eq]
  refine Nat.le_trans (totalOpens_flatMap_le ?_)
    (Bracket.countP_splitOutside_le '|' .round (· == CodePoint.char '(') t)
  intro part hp
  have h₁ := opens_trim_le part
  unfold alternativesOf
  split
  · rename_i inside hu
    have := length_unwrapped?_lt hp hu
    have h₂ := totalOpens_alternativesIn_le inside
    have h₃ : opens (Text.trim part) = opens inside + 1 := by
      rw [unwrapped?_eq hu]; simp [opens]
    omega
  · simpa [totalOpens] using h₁
termination_by t.length

/-- The brackets that a cut was made at and those still inside the groups. -/
def Cut.groupOpens (groups : List (Text × Text)) : Nat :=
  totalOpens (groups.map Prod.fst) + groups.length

theorem Cut.groupOpens_le (t : Text) : groupOpens (ofText t).groups ≤ opens t := by
  fun_induction ofText t with
  | case1 => simp [groupOpens]
  | case2 c rest ih =>
    simp only [cons, opens, List.countP_cons] at *
    omega
  | case3 rest inside after h ih =>
    rw [Bracket.closing?_eq h]
    have hb : ((CodePoint.char '(' == CodePoint.char '(') = true) = True := by simp
    simp only [groupOpens, totalOpens_cons, opens, group, List.map_cons, List.length_cons, List.countP_cons,
      List.countP_append, hb, if_true] at *
    omega
  | case4 rest h => simp [groupOpens]
  | case5 c rest _ _ ih =>
    simp only [cons, opens, List.countP_cons] at *
    omega

namespace Rules

/-- A rule counts one, and each opening bracket in it. -/
def weight (rules : Rules) : Nat := totalOpens (rules.flatMap (·.alternatives)) + rules.length

theorem weight_cons (r : Rule) (rules : Rules) :
    weight (r :: rules) = totalOpens r.alternatives + 1 + weight rules := by
  rw [weight, List.flatMap_cons, totalOpens_append, List.length_cons, weight]
  omega

theorem weight_append (as bs : Rules) : weight (as ++ bs) = weight as + weight bs := by
  simp only [weight, List.flatMap_append, totalOpens_append, List.length_append]
  omega

end Rules

theorem weight_nameGroups_le (parent : Text) (taken : List Text) (index : Nat)
    (groups : List (Text × Text)) :
    Rules.weight (nameGroups parent taken index groups).2.1 ≤ Cut.groupOpens groups := by
  induction groups generalizing taken index with
  | nil => simp [nameGroups, Rules.weight]
  | cons g rest ih =>
    obtain ⟨inside, after⟩ := g
    have h₁ := ih (numbered parent (freeIndex parent taken taken.length index) :: taken)
      (freeIndex parent taken taken.length index + 1)
    have h₂ := totalOpens_alternativesIn_le inside
    simp only [nameGroups, Rules.weight_cons, Cut.groupOpens, List.map_cons, totalOpens_cons, List.length_cons] at *
    omega

theorem weight_expandAlternatives_le (parent : Text) (taken : List Text) (index : Nat)
    (alternatives : List Text) :
    Rules.weight (expandAlternatives parent taken index alternatives).2 ≤ totalOpens alternatives := by
  induction alternatives generalizing taken index with
  | nil => simp [expandAlternatives, Rules.weight]
  | cons a rest ih =>
    have h₁ := ih (Rules.names (nameGroups parent taken index (Cut.ofText a).groups).2.1 ++ taken)
      (nameGroups parent taken index (Cut.ofText a).groups).2.2
    have h₂ := weight_nameGroups_le parent taken index (Cut.ofText a).groups
    have h₃ := Cut.groupOpens_le a
    simp only [expandAlternatives, Rules.weight_append, totalOpens_cons] at *
    omega

/-! ## All rules -/

namespace Rules

/-- Expands the rules in `todo` behind those `done`. Rules made on the way come
    last. -/
def expandFrom (done : Rules) : (todo : Rules) → Rules
  | [] => done
  | r :: rest =>
    let e := expandAlternatives r.nonterminal (names (done ++ r :: rest)) 0 r.alternatives
    expandFrom (done ++ [⟨r.nonterminal, e.1⟩]) (rest ++ e.2)
termination_by todo => weight todo
decreasing_by
  have := weight_expandAlternatives_le r.nonterminal (names (done ++ r :: rest)) 0 r.alternatives
  rw [weight_append, weight_cons]
  omega

/-- The rules without groups: their own, and behind them those that their groups
    became. -/
def expanded (rules : Rules) : Rules := expandFrom [] rules

end Rules

end Errand
