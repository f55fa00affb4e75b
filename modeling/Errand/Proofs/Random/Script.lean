/-
  Errand.Proofs.Random.Script — choices written down before they are made.

  A script makes the choices that its numbers say. Any choices can be written so, and to show
  that something can happen it is enough to write a script for it.
-/

import Errand.Random.Source

namespace Errand

/-- Numbers that decide the choices, one after the other; zero decides when none is
    left. -/
structure Script where
  numbers : List Nat

namespace Script

/-- The next number, among `n + 1`. -/
def next (n : Nat) : Script → Fin (n + 1) × Script
  | ⟨[]⟩ => (0, ⟨[]⟩)
  | ⟨k :: rest⟩ => (Fin.ofNat (n + 1) k, ⟨rest⟩)

/-- The picks of a shuffle, each one a choice. -/
def picks : (n : Nat) → Script → Picks n × Script
  | 0, s => (.done, s)
  | n + 1, s =>
    let (place, s) := s.next n
    let (rest, s) := picks n s
    (.pick place rest, s)

instance : RandomSource Script := ⟨next, picks⟩

end Script

end Errand
