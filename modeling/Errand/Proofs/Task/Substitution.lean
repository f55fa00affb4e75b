/-
  Errand.Proofs.Task.Substitution — names in the place of references.

  A clause refers to other wildcards, and gets the quoted names of what these are bound to. If
  each reference stands as a literal of its own, the clause is read with these names, whatever
  characters they have, as the tree that it is read as with empty literals: each such literal
  holds the name of what was referred to there, and nothing else is changed.

  That is so if and only if the names are apart, none with a reference in it that has its turn
  later (`substitute_inserts`). A name that has one is looked through as if it were part of the
  clause (`substitute_breaks`).
-/

import Errand.Proofs.Task.Binding
import Errand.Proofs.Where.Filling
import Errand.Proofs.Where.Shapes

namespace Errand.Resolver

variable {bound : Bindings} {name : Text → Text}

/-- With all references bound, the clause gets their names one keycode after another. -/
theorem withNames_eq_foldl {keycodes : List Text}
    (hbound : ∀ k ∈ keycodes, (bound.lookup k).map (·.name.display) = some (name k)) (t : Text) :
    keycodes.foldlM (withName bound) t =
      some (keycodes.foldl (fun u k => Text.replaceAll (reference k) (Where.quote (name k)) u) t) := by
  induction keycodes generalizing t with
  | nil => rfl
  | cons k keycodes ih =>
    obtain ⟨hk, hbound⟩ := List.forall_mem_cons.mp hbound
    obtain ⟨shown, hshown, hname⟩ := Option.map_eq_some_iff.mp hk
    have hturn : withName bound t k = some (Text.replaceAll (reference k) (Where.quote (name k)) t) := by
      rw [withName, hshown, ← hname]
      rfl
    rw [List.foldlM_cons, hturn, List.foldl_cons]
    exact ih hbound _

theorem alike_filled {clause : Text} {found : List Where.Token} (h : Where.tokens (Where.emptied clause) = .ok found)
    (halone : Where.StandAlone clause found) (name : Text → Text) :
    List.Forall₂ Where.TokenContent.Alike (found.map Where.Token.content)
      (found.map (Where.Token.filled name (Where.holes clause))) := by
  rw [List.forall₂_map_left_iff, List.forall₂_map_right_iff, List.forall₂_same]
  intro k hk
  rw [Where.content_of_holes h halone k hk, Where.Token.filled, Where.Token.filled]
  split
  · exact Or.inr ⟨_, _, rfl, rfl⟩
  · exact Or.inl rfl

/-- The names of what a clause refers to are literals of its tree, and only that, if and only if
    the names are apart. -/
theorem substitute_inserts {clause : Text} {found : List Where.Token} {empty : Where.Clause}
    (hfound : Where.tokens (Where.emptied clause) = .ok found) (hempty : Where.parse (Where.emptied clause) = .ok empty)
    (halone : Where.StandAlone clause found)
    (hbound : ∀ k ∈ references clause, (bound.lookup k).map (·.name.display) = some (name k)) :
    empty.root.literals = found.filterMap (fun k => k.content.literal?) ∧
      ((∃ text c, substitute bound clause = some text ∧ Where.parse text = .ok c ∧ c.root.shape = empty.root.shape ∧
        c.root.literals = found.filterMap (fun k => (k.filled name (Where.holes clause)).literal?)) ↔
      NamesApart name (references clause)) := by
  obtain ⟨shown, hturned, hturns⟩ := replaceAll_inTurn name clause
  have htext : substitute bound clause = some (replaceReferences shown clause) := by
    rw [substitute_eq, withNames_eq_foldl hbound, hturns]
  obtain ⟨root, hshape, hcontents, hparse⟩ := Where.parse_alike hfound hempty (alike_filled hfound halone name)
  have hliterals : root.literals = found.filterMap (fun k => (k.filled name (Where.holes clause)).literal?) := by
    rw [← root.contents_literals, hcontents, List.filterMap_map]
    rfl
  refine ⟨?_, ?_, ?_⟩
  · rw [← empty.root.contents_literals, Where.contents_of_parse hfound hempty, List.filterMap_map]
    rfl
  · rintro ⟨text, c, hsubstitute, hc, hcshape, hcliterals⟩
    obtain rfl : replaceReferences shown clause = text := Option.some.inj (htext.symm.trans hsubstitute)
    -- the tree is the one with the names, so the tokens are, and none of the names is broken
    have hroot : c.root = root := Where.Expr.eq_of_shape (hcshape.trans hshape.symm) (hcliterals.trans hliterals.symm)
    obtain ⟨found', _, hfound', -, -⟩ := Where.chain_of_parse hc
    have hcontents' : found'.map Where.Token.content = found.map (Where.Token.filled name (Where.holes clause)) := by
      rw [← Where.contents_of_parse hfound' hc, hroot, hcontents]
    exact hturned.apart.mpr (Where.quote_of_tokens hturned.each hfound halone hfound' hcontents')
  · intro hapart
    obtain ⟨found', hfound', hcontents'⟩ := Where.tokens_filled name hfound halone
    have hwhole : replaceReferences shown clause = replaceReferences (fun k => Where.quote (name k)) clause :=
      replaceReferences_congr (hturned.apart.mp hapart)
    rw [hwhole] at htext
    exact ⟨_, _, htext, hparse _ found' hfound' hcontents', hshape, hliterals⟩

def roomCalled (t : Text) : Shown := .entity (.room 0 ⟨.text t, []⟩)

/-- A clause that refers to two things, to one of them twice. -/
def twiceClause : Text := "name = <<object0001>> or not kind != <<name0002>> and label = <<object0001>>".text

/-- A name with quotes, a backslash, a word of clauses, a bracket, and a reference to nothing that the
    clause refers to. -/
def oddName : Text := "\"a\" \\ and 'b' \x7b <<name0003>>".text

def twiceName (k : Text) : Text := if k = "object0001".text then oddName else "James".text

def twiceBound : Bindings := [("object0001".text, roomCalled oddName), ("name0002".text, roomCalled "James".text)]

theorem substitute_inserts_odd : ∃ found empty, Where.tokens (Where.emptied twiceClause) = .ok found ∧
    Where.parse (Where.emptied twiceClause) = .ok empty ∧ Where.StandAlone twiceClause found ∧
    (∀ k ∈ references twiceClause, (twiceBound.lookup k).map (·.name.display) = some (twiceName k)) ∧
    NamesApart twiceName (references twiceClause) ∧
    ∃ text c, substitute twiceBound twiceClause = some text ∧ Where.parse text = .ok c ∧
      c.root.shape = empty.root.shape ∧ c.root.literals = [.text oddName, .text "James".text, .text oddName] := by
  let view (found : List Where.Token) := (decide (Where.StandAlone twiceClause found),
    found.filterMap fun k => (k.filled twiceName (Where.holes twiceClause)).literal?)
  have hview : (Where.tokens (Where.emptied twiceClause)).toOption.map view =
      some (true, [.text oddName, .text "James".text, .text oddName]) := by decide +kernel
  have hparse : (Where.parse (Where.emptied twiceClause)).toOption.map (fun _ => true) = some true := by decide +kernel
  have hbound : ∀ k ∈ references twiceClause, (twiceBound.lookup k).map (·.name.display) = some (twiceName k) := by
    decide +kernel
  have hapart : NamesApart twiceName (references twiceClause) := by decide +kernel
  obtain ⟨found, hfound, hsees⟩ := exists_of_toOption hview
  obtain ⟨empty, hempty, -⟩ := exists_of_toOption hparse
  obtain ⟨halone, hliterals⟩ := Prod.mk.inj hsees
  have halone := of_decide_eq_true halone
  obtain ⟨text, c, htext, hc, hshape, hcliterals⟩ :=
    (substitute_inserts hfound hempty halone hbound).2.mpr hapart
  exact ⟨found, empty, hfound, hempty, halone, hbound, hapart, text, c, htext, hc, hshape, hcliterals.trans hliterals⟩

/-- A clause that refers to two things, and the name of the first one is a reference to the other. -/
def strayClause : Text := "name = <<object0001>> or name = <<name0002>>".text

def strayBound : Bindings :=
  [("object0001".text, roomCalled "<<name0002>>".text), ("name0002".text, roomCalled "James".text)]

/-- The clause as it comes out: two empty texts with a name between them. -/
def strayText : Text := "name = \"\"James\"\" or name = \"James\"".text

theorem substitute_breaks : ∃ found empty, Where.tokens (Where.emptied strayClause) = .ok found ∧
    Where.parse (Where.emptied strayClause) = .ok empty ∧ Where.StandAlone strayClause found ∧
    (∀ k ∈ references strayClause, (strayBound.lookup k).isSome = true) ∧
    substitute strayBound strayClause = some strayText ∧ ¬∃ c, Where.parse strayText = .ok c := by
  have hview : (Where.tokens (Where.emptied strayClause)).toOption.map
      (fun found => decide (Where.StandAlone strayClause found)) = some true := by decide +kernel
  have hparse : (Where.parse (Where.emptied strayClause)).toOption.map (fun _ => true) = some true := by decide +kernel
  have hbound : ∀ k ∈ references strayClause, (strayBound.lookup k).isSome = true := by decide +kernel
  have htext : substitute strayBound strayClause = some strayText := by decide +kernel
  have hfault : (Where.parse strayText).isOk = false := by decide +kernel
  obtain ⟨found, hfound, halone⟩ := exists_of_toOption hview
  obtain ⟨empty, hempty, -⟩ := exists_of_toOption hparse
  refine ⟨found, empty, hfound, hempty, of_decide_eq_true halone, hbound, htext, ?_⟩
  rintro ⟨c, hc⟩
  rw [hc] at hfault
  cases hfault

end Errand.Resolver
