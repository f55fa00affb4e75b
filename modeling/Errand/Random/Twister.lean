/-
  Errand.Random.Twister — the generator MT19937.

  Its state is 624 words of 32 bits; each output word comes from renewing one of
  them with the help of its neighbour and of the word 397 places on, and mixing
  the bits of the result. The words are renewed one at a time, as outputs are
  asked for, which gives the same outputs as renewing all of them at once.
-/

namespace Errand

structure Twister where
  words : Array UInt32
  /-- The word renewed next. -/
  place : Nat

namespace Twister

/-- How many words a state has. -/
def size : Nat := 624

/-- How far ahead the word lies that helps to renew one. -/
def middle : Nat := 397

def wordAt (words : Array UInt32) (i : Nat) : UInt32 := words.getD i 0

/-! ## The first state -/

/-- The words that follow from a single number. -/
def plainWords (seed : UInt32) : Array UInt32 :=
  ((List.range (size - 1)).foldl
    (fun (words, last) i =>
      let next : UInt32 := (1812433253 : UInt32) * (last ^^^ (last >>> 30)) + (i + 1).toUInt32
      (words.push next, next))
    (#[seed], seed)).1

/-- The place after `i`; from the last one the mixing goes on behind the first,
    which takes the last word. -/
def stepPlace (words : Array UInt32) (i : Nat) : Array UInt32 × Nat :=
  if i + 1 < size then (words, i + 1)
  else (words.setIfInBounds 0 (wordAt words (size - 1)), 1)

/-- One word mixed with the one before it. -/
def mixed (words : Array UInt32) (i : Nat) (factor : UInt32) : UInt32 :=
  let before := wordAt words (i - 1)
  wordAt words i ^^^ ((before ^^^ (before >>> 30)) * factor)

/-- Mixes the words of a key in, each as often as it takes to reach every word. -/
def mixKey (key : Array UInt32) (words : Array UInt32) : Array UInt32 × Nat :=
  (List.range (max size key.size)).foldl
    (fun (words, i) k =>
      let j := k % key.size
      let word := mixed words i 1664525 + wordAt key j + j.toUInt32
      stepPlace (words.setIfInBounds i word) i)
    (words, 1)

/-- Mixes the words once more, so that each depends on all of the key. -/
def mixPlaces (words : Array UInt32) (i : Nat) : Array UInt32 × Nat :=
  (List.range (size - 1)).foldl
    (fun (words, i) _ =>
      let word := mixed words i 1566083941 - i.toUInt32
      stepPlace (words.setIfInBounds i word) i)
    (words, i)

/-- The state that a key of words leads to. -/
def ofKey (key : Array UInt32) : Twister :=
  let (words, i) := mixKey key (plainWords 19650218)
  let (words, _) := mixPlaces words i
  ⟨words.setIfInBounds 0 0x80000000, 0⟩

/-- The 32-bit words of a number, the lowest first. -/
def keyWords : Nat → Nat → List UInt32
  | 0, _ => []
  | fuel + 1, n =>
    n.toUInt32 :: (if n < Nat.pow 2 32 then [] else keyWords fuel (n / Nat.pow 2 32))

/-- The state that a number leads to; its sign does not matter. -/
def ofInt (n : Int) : Twister := ofKey (keyWords (n.natAbs.log2 / 32 + 1) n.natAbs).toArray

/-! ## Outputs -/

/-- The bits of a word mixed for output. -/
def tempered (y : UInt32) : UInt32 :=
  let y := y ^^^ (y >>> 11)
  let y := y ^^^ ((y <<< 7) &&& 0x9d2c5680)
  let y := y ^^^ ((y <<< 15) &&& 0xefc60000)
  y ^^^ (y >>> 18)

/-- The next output word. -/
def next (t : Twister) : UInt32 × Twister :=
  let i := t.place
  let y := (wordAt t.words i &&& 0x80000000) ||| (wordAt t.words ((i + 1) % size) &&& 0x7fffffff)
  let word := wordAt t.words ((i + middle) % size) ^^^ (y >>> 1) ^^^
    (if y &&& 1 = 0 then 0 else 0x9908b0df)
  (tempered word, ⟨t.words.setIfInBounds i word, (i + 1) % size⟩)

/-- A number of `k` bits; its low words are drawn first, the last one gives its
    high bits. -/
def bits (t : Twister) (k : Nat) : Nat × Twister :=
  let (word, t) := t.next
  if _h : k ≤ 32 then ((word >>> (32 - k).toUInt32).toNat, t)
  else
    let (high, t) := bits t (k - 32)
    (word.toNat + Nat.pow 2 32 * high, t)
termination_by k

/-- The first of the numbers of `k` bits drawn that lies below `n`; after `tries`
    numbers that do not, the remainder of a last one. -/
def belowFrom (n : Nat) : Nat → Twister → Nat × Twister
  | 0, t => let (x, t) := t.bits (n.log2 + 1); (x % n, t)
  | tries + 1, t =>
    let (x, t) := t.bits (n.log2 + 1)
    if x < n then (x, t) else belowFrom n tries t

/-- More numbers than this beyond the bound in a row do not come. -/
def patience : Nat := 10000

/-- A number below `n`. -/
def below (t : Twister) (n : Nat) : Nat × Twister := belowFrom n patience t

theorem belowFrom_lt {n : Nat} (hn : 0 < n) (tries : Nat) (t : Twister) :
    (belowFrom n tries t).1 < n := by
  induction tries generalizing t with
  | zero => exact Nat.mod_lt _ hn
  | succ tries ih =>
    simp only [belowFrom]
    split
    · assumption
    · exact ih _

theorem below_lt {n : Nat} (hn : 0 < n) (t : Twister) : (t.below n).1 < n := belowFrom_lt hn _ t

end Twister

end Errand
