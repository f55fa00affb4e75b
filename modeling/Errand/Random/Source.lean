/-
  Errand.Random.Source — where random choices come from.

  A source makes two kinds of draws: one of several things, and all the picks of
  a shuffle. Everything that draws is written for any source, so what is proved
  of it holds for every sequence of choices.

  A shuffle of n items goes through the places from the last to the first and
  swaps the item there with one picked among those at or before it.
-/

namespace Errand

/-! ## Draws -/

/-- The picks of one shuffle of `n` items: a place among the first `n`, and the
    picks for the items before the last. -/
inductive Picks : Nat → Type where
  | done : Picks 0
  | pick {n : Nat} (place : Fin (n + 1)) (rest : Picks n) : Picks (n + 1)

class RandomSource (σ : Type) where
  /-- One of `n + 1` things. -/
  choose : (n : Nat) → σ → Fin (n + 1) × σ
  /-- The picks of a shuffle of `n` items. -/
  picks : (n : Nat) → σ → Picks n × σ

namespace RandomSource

/-- One of the elements of a list that has a first one. -/
def choice {σ α : Type} [RandomSource σ] (first : α) (more : List α) (s : σ) : α × σ :=
  let (i, s) := choose more.length s
  ((first :: more).get (i.cast (by simp)), s)

end RandomSource

/-! ## Shuffling -/

namespace Shuffle

/-- The first `n` items rearranged as the picks say. -/
def arrange {α : Type} : {n : Nat} → Picks n → (items : Array α) → n ≤ items.size → Array α
  | 0, .done, items, _ => items
  | n + 1, .pick place rest, items, h =>
    arrange rest (items.swap n place.val (by omega) (by omega)) (by simp only [Array.size_swap]; omega)

/-- The list rearranged as the picks say. -/
def list {α : Type} (items : List α) (picks : Picks items.length) : List α :=
  (arrange picks items.toArray (by simp)).toList

end Shuffle

/-- The list in an order drawn from the source. -/
def RandomSource.shuffle {σ α : Type} [RandomSource σ] (items : List α) (s : σ) : List α × σ :=
  let (p, s) := RandomSource.picks items.length s
  (Shuffle.list items p, s)

end Errand
