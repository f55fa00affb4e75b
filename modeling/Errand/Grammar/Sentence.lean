/-
  Errand.Grammar.Sentence — sentences drawn from rules.

  A sentence begins with an alternative of the start nonterminal. Each nonterminal
  in it is replaced, from left to right, by what one of its own alternatives
  becomes in the same way. The text that was put in is not looked at again, so a
  nonterminal never arises from two parts that come to stand side by side.
-/

import Errand.Grammar.Rule
import Errand.Random.Source

namespace Errand

/-! ## Symbols -/

inductive Symbol where
  | terminal (c : CodePoint)
  | nonterminal (name : Text)
  deriving DecidableEq, Repr

/-- The symbols of an alternative. A nonterminal goes as far as it can. -/
def symbols : Text → List Symbol
  | [] => []
  | c :: rest =>
    let name := rest.takeWhile isRuleChar
    if c = '$' && !name.isEmpty then
      .nonterminal (c :: name) :: symbols (rest.dropWhile isRuleChar)
    else .terminal c :: symbols rest
termination_by t => t.length
decreasing_by
  · have := (List.dropWhile_suffix isRuleChar (l := rest)).length_le
    simp only [List.length_cons]; omega
  · simp

/-! ## Drawing -/

/-- The expansion goes deeper than it may. -/
inductive SentenceFault where
  | tooDeep
  deriving DecidableEq, Repr

/-- The most texts that may stand one inside the other. -/
def Sentence.maxDepth : Nat := 1000

def SentenceFault.message : SentenceFault → Text
  | .tooDeep => "Can't generate sentence: grammar is recursive (depth > ".text ++
      decimal Sentence.maxDepth ++ ")".text

namespace Sentence

/-- A draw that may end in a fault; what it drew stays drawn. -/
abbrev Draw (σ : Type) := ExceptT SentenceFault (StateM σ)

variable {σ : Type} [RandomSource σ]

/-- An alternative of a nonterminal, empty if there is no rule for it. -/
def pick (rules : Rules) (nonterminal : Text) (s : σ) : Text × σ :=
  match (rules.find? nonterminal).map (·.alternatives) with
  | some (first :: more) => RandomSource.choice first more s
  | _ => ([], s)

/-- What one symbol becomes, given what nonterminals become. -/
def spelled (replacement : Text → Draw σ Text) : Symbol → Draw σ Text
  | .terminal c => pure [c]
  | .nonterminal name => replacement name

/-- What a text becomes when `depth` further texts may stand inside it. -/
def expand (rules : Rules) : (depth : Nat) → Text → Draw σ Text
  | 0, t => return ((← (symbols t).mapM (spelled fun _ => throw .tooDeep)).flatten)
  | depth + 1, t =>
    return ((← (symbols t).mapM (spelled fun name => do
      let alternative ← modifyGet (pick rules name)
      expand rules depth alternative)).flatten)

/-- Brackets and bars without the backslash in front of them. -/
def unescape : Text → Text
  | [] => []
  | .char '\\' :: c :: rest =>
    if c = '(' || c = ')' || c = '|' then c :: unescape rest else '\\' :: unescape (c :: rest)
  | c :: rest => c :: unescape rest

/-- A sentence of the rules. -/
def draw (rules : Rules) : Draw σ Text := do
  let first ← modifyGet (pick rules startNonterminal)
  return unescape (← expand rules (maxDepth - 1) first)

end Sentence

end Errand
