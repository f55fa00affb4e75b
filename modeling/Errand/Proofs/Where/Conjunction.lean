/-
  Errand.Proofs.Where.Conjunction — joined clauses hold if all of them do.

  Clauses read apart are joined by and, with the first one at the bottom of the tree.
  Whatever else happens on the way, the joined clause comes out true exactly if each one
  comes out true on its own (`conjunction_holds_iff`).
-/

import Errand.Where.Meaning

namespace Errand

/-- What succeeds for all elements of a list succeeds for each one. -/
theorem exists_of_mapM_ok {α β ε : Type} {f : α → Except ε β} {l : List α} {bs : List β}
    (h : l.mapM f = .ok bs) {a : α} (ha : a ∈ l) : ∃ b ∈ bs, f a = .ok b := by
  induction l generalizing bs with
  | nil => cases ha
  | cons x l ih =>
    rw [List.mapM_cons] at h
    rcases hx : f x with e | y
    · rw [hx] at h
      cases h
    · rw [hx] at h
      rcases hl : l.mapM f with e | ys
      · rw [hl] at h
        cases h
      · rw [hl] at h
        cases h
        rcases List.mem_cons.mp ha with rfl | ha
        · exact ⟨y, List.mem_cons_self, hx⟩
        · obtain ⟨b, hb, hab⟩ := ih hl ha
          exact ⟨b, List.mem_cons_of_mem _ hb, hab⟩

namespace Where
variable {lookup : Option Lookup}

theorem Expr.and_holds_iff {a b : Expr} :
    (joined .and a b).holds lookup = .ok true ↔ a.holds lookup = .ok true ∧ b.holds lookup = .ok true := by
  have hand : (joined .and a b).holds lookup =
      (a.holds lookup).bind fun x => if x = true then b.holds lookup else .ok false := by
    rw [holds]
    rfl
  rw [hand]
  rcases a.holds lookup with f | x
  · simp [Except.bind]
  · cases x <;> simp [Except.bind]

theorem foldl_and_holds_iff (more : List Clause) (first : Expr) :
    (more.foldl (fun tree clause => .joined .and tree clause.root) first).holds lookup = .ok true ↔
      first.holds lookup = .ok true ∧ ∀ c ∈ more, c.holds lookup = .ok true := by
  induction more generalizing first with
  | nil => simp
  | cons c more ih =>
    rw [List.foldl_cons, ih, Expr.and_holds_iff, List.forall_mem_cons, and_assoc]
    rfl

/-- A joined clause holds if and only if each of the clauses does. -/
theorem conjunction_holds_iff {cs : List Clause} {c : Clause} (h : conjunction cs = some c) :
    c.holds lookup = .ok true ↔ ∀ x ∈ cs, x.holds lookup = .ok true := by
  cases cs with
  | nil => cases h
  | cons first more =>
    cases h
    rw [List.forall_mem_cons]
    exact foldl_and_holds_iff more first.root

end Where

end Errand
