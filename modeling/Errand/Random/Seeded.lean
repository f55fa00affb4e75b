/-
  Errand.Random.Seeded — the source of random choices that a seed determines.

  The seed grows by one with every draw, and each draw comes from a generator of
  its own that starts from the grown seed.
-/

import Errand.Random.Source
import Errand.Random.Twister

namespace Errand

structure Seeded where
  seed : Int
  deriving DecidableEq, Repr

namespace Seeded

/-- The seed after a draw. -/
def next (s : Seeded) : Seeded := ⟨s.seed + 1⟩

/-- The generator of the next draw. -/
def generator (s : Seeded) : Twister := .ofInt s.next.seed

/-- The picks of a shuffle in the order of drawing; the last item left needs no
    draw. -/
def picksFrom : (n : Nat) → Twister → Picks n
  | 0, _ => .done
  | 1, _ => .pick 0 .done
  | n + 2, t =>
    let drawn := t.below (n + 2)
    .pick ⟨drawn.1, Twister.below_lt (by omega) t⟩ (picksFrom (n + 1) drawn.2)

instance : RandomSource Seeded where
  choose n s := (⟨(s.generator.below (n + 1)).1, Twister.below_lt (by omega) _⟩, s.next)
  picks n s := (picksFrom n s.generator, s.next)

/-- An integer from `a` to `b`; none if there is none. The draw counts in any
    case. -/
def between (a b : Int) (s : Seeded) : Option Int × Seeded :=
  if b < a then (none, s.next)
  else (some (a + (s.generator.below (b - a + 1).toNat).1), s.next)

/-- One element of a list; none of an empty one. The draw counts in any case. -/
def choice? (items : List α) (s : Seeded) : Option α × Seeded :=
  match items with
  | [] => (none, s.next)
  | first :: more =>
    let (x, s) := RandomSource.choice first more s
    (some x, s)

end Seeded

end Errand
