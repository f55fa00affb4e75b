/-
  Errand.Text.Bracket — matching brackets and splitting outside them.

  A backslash takes the next character out of play, whatever it is. The two
  functions count brackets on their own: `closing?` wants the bracket that ends a
  pair already open, `splitOutside` the separators that no pair encloses.
-/

import Errand.Text.Basic

namespace Errand.Bracket

/-- The kind of brackets in use. -/
structure Pair where
  opening : CodePoint
  closing : CodePoint

def Pair.round : Pair := ⟨'(', ')'⟩

def Pair.curly : Pair := ⟨'\x7b', '\x7d'⟩

/-- The loop of `closing?`, inside `depth` further pairs. -/
def closingFrom (p : Pair) : Nat → Text → Option (Text × Text)
  | _, [] => none
  | _, .char '\\' :: [] => none
  | depth, .char '\\' :: c :: rest =>
    (closingFrom p depth rest).map fun (inside, after) => ('\\' :: c :: inside, after)
  | depth, c :: rest =>
    if c = p.opening then
      (closingFrom p (depth + 1) rest).map fun (inside, after) => (c :: inside, after)
    else if c = p.closing then
      match depth with
      | 0 => some ([], rest)
      | outer + 1 => (closingFrom p outer rest).map fun (inside, after) => (c :: inside, after)
    else (closingFrom p depth rest).map fun (inside, after) => (c :: inside, after)

/-- The text up to the bracket that closes the pair just opened, and the text
    behind that bracket. -/
def closing? (p : Pair) (t : Text) : Option (Text × Text) := closingFrom p 0 t

/-- The loop of `splitOutside`, inside `depth` pairs: the segment in progress and
    those after it. -/
def splitFrom (separator : CodePoint) (p : Pair) : Nat → Text → Text × List Text
  | _, [] => ([], [])
  | depth, .char '\\' :: c :: rest => Text.consFirst '\\' (Text.consFirst c (splitFrom separator p depth rest))
  | depth, c :: rest =>
    if c = p.opening then Text.consFirst c (splitFrom separator p (depth + 1) rest)
    else if c = p.closing && depth != 0 then Text.consFirst c (splitFrom separator p (depth - 1) rest)
    else if c = separator && depth == 0 then Text.startSegment (splitFrom separator p depth rest)
    else Text.consFirst c (splitFrom separator p depth rest)

/-- The segments between the separators that stand outside all pairs. A closing
    bracket without its opening one counts as text. -/
def splitOutside (separator : CodePoint) (p : Pair) (t : Text) : List Text :=
  let (first, more) := splitFrom separator p 0 t
  first :: more

/-! ## Nothing is lost -/

theorem closingFrom_eq {p : Pair} {depth : Nat} {t inside after : Text}
    (h : closingFrom p depth t = some (inside, after)) : t = inside ++ p.closing :: after := by
  fun_induction closingFrom p depth t generalizing inside after with
  | case1 => simp at h
  | case2 => simp at h
  | case5 => simp_all
  | case3 depth c rest ih | case4 depth rest _ _ ih | case6 c rest _ _ outer ih
  | case7 depth c rest _ _ _ _ ih =>
    obtain ⟨⟨a, b⟩, hr, he⟩ := Option.map_eq_some_iff.1 h
    simp only [Prod.mk.injEq] at he
    obtain ⟨rfl, rfl⟩ := he
    simp [ih hr]

theorem closing?_eq {p : Pair} {t inside after : Text} (h : closing? p t = some (inside, after)) :
    t = inside ++ p.closing :: after := closingFrom_eq h

/-- No class of characters is more frequent in the segments than in the text. -/
theorem countP_splitFrom_le (separator : CodePoint) (p : Pair) (q : CodePoint → Bool) (depth : Nat) (t : Text) :
    (splitFrom separator p depth t).1.countP q + (splitFrom separator p depth t).2.flatten.countP q ≤
      t.countP q := by
  fun_induction splitFrom separator p depth t with
  | case1 => simp
  | case5 depth c rest _ _ _ _ ih =>
    simp only [Text.startSegment, List.countP_nil, List.flatten_cons, List.countP_append, List.countP_cons]
    omega
  | case2 depth c rest ih => simp only [Text.consFirst, List.countP_cons] at *; omega
  | case3 depth rest _ ih => simp only [Text.consFirst, List.countP_cons] at *; omega
  | case4 depth c rest _ _ _ ih => simp only [Text.consFirst, List.countP_cons] at *; omega
  | case6 depth c rest _ _ _ _ ih => simp only [Text.consFirst, List.countP_cons] at *; omega

theorem countP_splitOutside_le (separator : CodePoint) (p : Pair) (q : CodePoint → Bool) (t : Text) :
    (splitOutside separator p t).flatten.countP q ≤ t.countP q := by
  rw [splitOutside, List.flatten_cons, List.countP_append]
  exact countP_splitFrom_le separator p q 0 t

theorem length_le_of_mem_splitOutside {separator : CodePoint} {p : Pair} {t part : Text}
    (h : part ∈ splitOutside separator p t) : part.length ≤ t.length := by
  have hs := countP_splitOutside_le separator p (fun _ => true) t
  have hp := (List.sublist_flatten_of_mem h).length_le
  simp only [List.countP_true] at hs
  omega

end Errand.Bracket
