/-
  Errand.Proofs.Random.Tally — a source that keeps count of what it is asked for.

  A tally passes each request on to the source it watches and notes it. What a run leaves
  noted is what the run drew, in order.
-/

import Errand.Random.Source

namespace Errand

/-- What a source is asked for. -/
inductive Ask where
  /-- One of `n` things. -/
  | oneOf (n : Nat)
  /-- An order of `n` things. -/
  | orderOf (n : Nat)
  deriving DecidableEq, Repr

/-- A source, and what it was asked for so far. -/
structure Tally (σ : Type) where
  source : σ
  asked : List Ask

namespace Tally

variable {σ : Type} [RandomSource σ]

instance : RandomSource (Tally σ) where
  choose n t :=
    let (i, source) := RandomSource.choose n t.source
    (i, ⟨source, t.asked ++ [.oneOf (n + 1)]⟩)
  picks n t :=
    let (p, source) := RandomSource.picks n t.source
    (p, ⟨source, t.asked ++ [.orderOf n]⟩)

theorem choice_eq {α : Type} (first : α) (more : List α) (s : σ) (asked : List Ask) :
    RandomSource.choice first more (⟨s, asked⟩ : Tally σ) =
      ((RandomSource.choice first more s).1,
        ⟨(RandomSource.choice first more s).2, asked ++ [.oneOf (first :: more).length]⟩) := rfl

end Tally

end Errand
