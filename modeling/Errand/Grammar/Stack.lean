/-
  Errand.Grammar.Stack — drawing a sentence step by step.

  The texts being expanded lie on a stack. A step looks for the first nonterminal in what
  is unread of the top one. If there is one, an alternative of it is put on the stack;
  if not, the text is done and goes to the text below as one more piece, or it is the
  sentence if there is none below. The stack has no more than `maxDepth` texts.
-/

import Errand.Grammar.Sentence

namespace Errand

namespace Sentence

/-- The first nonterminal in a text, with what stands before it and behind it. -/
def nextNonterminal? : Text → Option (Text × Text × Text)
  | [] => none
  | c :: rest =>
    let name := rest.takeWhile isRuleChar
    if c = '$' && !name.isEmpty then some ([], c :: name, rest.dropWhile isRuleChar)
    else (nextNonterminal? rest).map fun (before, name, after) => (c :: before, name, after)

/-- A text that is being expanded: what is unread of it, and the pieces made of the rest. -/
structure Frame where
  unread : Text
  pieces : List Text
  deriving DecidableEq, Repr

/-- How far a drawing has come. -/
inductive Stage (σ : Type) where
  | running (top : Frame) (below : List Frame) (s : σ)
  | halted (outcome : Except SentenceFault Text) (s : σ)

variable {σ : Type}

/-- A text that is done is a piece of the text below it, or the sentence. -/
def Stage.handDown (expanded : Text) (below : List Frame) (s : σ) : Stage σ :=
  match below with
  | [] => .halted (.ok (unescape expanded)) s
  | frame :: below => .running { frame with pieces := frame.pieces ++ [expanded] } below s

variable [RandomSource σ]

/-- A nonterminal that would stand too deep is not looked up, so nothing is drawn for it. -/
def step (rules : Rules) : Stage σ → Stage σ
  | .running top below s =>
    match nextNonterminal? top.unread with
    | some (before, name, after) =>
      if maxDepth ≤ below.length + 1 then .halted (.error .tooDeep) s
      else
        let (alternative, s) := pick rules name s
        .running ⟨alternative, []⟩ (⟨after, top.pieces ++ [before]⟩ :: below) s
    | none => .handDown (top.pieces ++ [top.unread]).flatten below s
  | .halted outcome s => .halted outcome s

/-- The first text is an alternative of the start nonterminal. -/
def start (rules : Rules) (s : σ) : Stage σ :=
  let (alternative, s) := pick rules startNonterminal s
  .running ⟨alternative, []⟩ [] s

end Sentence

end Errand
