/-
  Errand.Task.Source — tasks one after the other from several grammars.

  A grammar is chosen by its name, or at random among those of the highest tier
  that is not above the one asked for. A sentence is drawn from it and made into a
  task with fresh pools. If that fails in an ordinary way, it is tried again with
  another choice, three times in all. The source of choices and the automatic
  numbers go on from task to task.
-/

import Errand.Fault

namespace Errand

structure TaskSource (σ : Type) where
  grammars : List Grammar
  store : Store
  random : σ
  /-- The next automatic number. -/
  next : Int
  log : Log

/-- A step of the work. It may fail; what it changed before stays changed. -/
abbrev Supplying (σ : Type) := ExceptT Fault (StateM (TaskSource σ))

namespace TaskSource

variable {σ : Type} [RandomSource σ]

def start (grammars : List Grammar) (store : Store) (random : σ) : TaskSource σ :=
  ⟨grammars, store, random, firstAutomatic, []⟩

/-- Notes a warning or an error. -/
def note (level : LogLevel) (text : Text) : StateM (TaskSource σ) Unit :=
  modify fun g => { g with log := g.log ++ [⟨level, text⟩] }

/-! ## Choosing a grammar -/

/-- The grammar of a name; case and blanks around the name do not matter. -/
def find? (g : TaskSource σ) (name : Text) : Option Grammar :=
  g.grammars.find? fun grammar => Text.lower grammar.name == Text.lower (Text.trim name)

/-- The tiers a grammar can be chosen by, the highest first. -/
def tiers : List Tier := [.high, .moderate, .easy]

/-- A random grammar of the first of some tiers that has any. -/
def chooseAmong : List Tier → StateM (TaskSource σ) (Option Grammar)
  | [] => return none
  | tier :: rest => do
    let g ← get
    match g.grammars.filter (·.tier == tier) with
    | first :: more =>
      let (grammar, random) := RandomSource.choice first more g.random
      set { g with random }
      return some grammar
    | [] =>
      note .warning ("No grammars were found for ".text ++ tier.title ++ " difficulty degree.".text ++
        if Tier.easy < tier then " Grammar tier reduced.".text else [])
      chooseAmong rest

/-- The grammar of a name if one is given, else a random one up to a tier. -/
def select (tier : Tier) (name : Option Text) : StateM (TaskSource σ) (Option Grammar) := do
  match name.filter (!·.isEmpty) with
  | some name =>
    match find? (← get) name with
    | some grammar => return some grammar
    | none =>
      note .error ("Grammar ".text ++ Text.shown name ++ " does not exist.".text)
      return none
  | none =>
    match ← chooseAmong (tiers.filter (· ≤ tier)) with
    | some grammar => return some grammar
    | none =>
      note .error "No grammars could be selected.".text
      return none

/-! ## Making a task -/

/-- A sentence of a grammar. -/
def sentence (grammar : Grammar) : Supplying σ Text := do
  let g ← get
  let (outcome, random) := (Sentence.draw grammar.rules).run g.random
  set { g with random }
  match outcome with
  | .ok t => return t
  | .error f => throw (.sentence f)

/-- The task of a sentence, its entities up to a tier. -/
def taskOf (tier : Tier) (sentence : Text) : Supplying σ Task := do
  let g ← get
  let (outcome, r) := (Resolver.task g.store sentence).run (Resolver.start g.store tier g.random g.next)
  set { g with random := r.source, next := r.next, log := g.log ++ r.log }
  match outcome with
  | .ok t => return t
  | .error f => throw (.task f)

/-- A task of a grammar. -/
def attempt (tier : Tier) (grammar : Grammar) : Supplying σ Task := do
  let task ← taskOf tier (← sentence grammar)
  return { task with grammar := grammar.name }

/-- How often a task is tried. -/
def maxAttempts : Nat := 3

/-- A task, tried `left` more times. -/
def tryTask (tier : Tier) (name : Option Text) : (left : Nat) → Supplying σ (Option Task)
  | 0 => return none
  | left + 1 => do
    let chosen ← ExceptT.lift (select tier name)
    match chosen with
    | none => return none
    | some grammar =>
      let outcome ← ExceptT.lift (attempt tier grammar).run
      match outcome with
      | .ok task => return some task
      | .error f =>
        if f.isOrdinary then
          ExceptT.lift (note .warning ("Attempt ".text ++ decimal (maxAttempts - left) ++
            "/".text ++ decimal maxAttempts ++ " failed: ".text ++ f.message))
          tryTask tier name left
        else throw f

/-- A task, or none if none could be made. -/
def task (tier : Tier) (name : Option Text) : Supplying σ (Option Task) :=
  tryTask tier name maxAttempts

/-- A sentence of a chosen grammar, if one could be chosen. -/
def anySentence (tier : Tier) (name : Option Text) : Supplying σ (Option Text) := do
  let chosen ← ExceptT.lift (select tier name)
  match chosen with
  | none => return none
  | some grammar => some <$> sentence grammar

end TaskSource

end Errand
