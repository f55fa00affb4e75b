/-
  Errand.Node — the library as nodes of a graph editor.

  A node describes its inputs and outputs and does one piece of work: it makes a
  command, draws a sentence, or resolves the wildcards of one. An ordinary fault
  is noted and told in the outputs, any other ends the work.
-/

import Errand.Entity.Source
import Errand.Grammar.Folder
import Errand.Random.Seeded
import Errand.Task.Source

namespace Errand

/-! ## Descriptions -/

/-- An input of a node. -/
inductive NodeInput where
  | choice (options : List Text) (default : Text) (tooltip : Option Text)
  /-- A text of several lines. -/
  | text (default : Text) (tooltip : Option Text)
  | integer (default least most : Nat)
  | mapping

structure NodeKind where
  name : Text
  /-- The name on the screen. -/
  title : Text
  /-- What the node does. -/
  function : Text
  category : Text
  required : List (Text × NodeInput)
  optional : Option (List (Text × NodeInput))
  /-- The names and types of the outputs. -/
  outputs : List (Text × Text)

namespace Node

/-- The labels of the tiers one can choose. -/
def tierLabels : List Text := ["Easy".text, "Moderate".text, "High".text]

/-- A grammar to begin with. -/
def exampleGrammar : Text :=
  ("; grammar name Inline example\n" ++
    "; grammar tier Easy\n" ++
    "$Main = $deliver | $greet\n" ++
    "$deliver = (bring | give) the \x7bobject 1\x7d to \x7bname 1\x7d and tell \x7bpron obj\x7d it is from the \x7broom\x7d.\n" ++
    "$greet = (go to | navigate to) the \x7blocation placement 1\x7d and greet \x7bname\x7d.\n").text

def seedInput : Text × NodeInput := ("seed".text, .integer 0 0 (Nat.pow 2 64 - 1))

def tierInput : Text × NodeInput := ("tier".text, .choice tierLabels "High".text none)

def entitiesInput : Text × NodeInput :=
  ("entities".text,
    .text [] (some "Entity YAML. Leave empty to use entities/entities.yaml".text))

def grammarInput : Text × NodeInput := ("grammar".text, .text exampleGrammar none)

def generationCategory : Text := "commandprompts/generation".text

def generatorName : Text := "CommandGenerator".text
def sentenceName : Text := "GrammarSentence".text
def resolverName : Text := "WildcardResolver".text

/-- The node that makes a command, with the ways to choose a grammar. -/
def commandGenerator (choices : GrammarChoices) : NodeKind :=
  { name := generatorName
    title := "Command Generator 🤖".text
    function := "generate".text
    category := generationCategory
    required := [("grammar_source".text,
        .choice choices.labels (choices.labels.headD []) (some GrammarChoices.tooltip)),
      grammarInput, entitiesInput, seedInput, tierInput]
    optional := some [("context".text, .mapping)]
    outputs := [("command".text, "STRING".text), ("metadata".text, "STRING".text),
      ("context".text, "DICT".text)] }

/-- The node that draws a sentence. -/
def grammarSentence : NodeKind :=
  { name := sentenceName
    title := "Grammar Sentence 📜".text
    function := "expand".text
    category := generationCategory
    required := [grammarInput, seedInput]
    optional := none
    outputs := [("sentence".text, "STRING".text)] }

/-- The node that resolves the wildcards of a sentence. -/
def wildcardResolver : NodeKind :=
  { name := resolverName
    title := "Wildcard Resolver 🎯".text
    function := "resolve".text
    category := generationCategory
    required := [("sentence".text, .text [] none), entitiesInput, seedInput, tierInput]
    optional := none
    outputs := [("command".text, "STRING".text), ("metadata".text, "STRING".text)] }

/-- All nodes, in the order in which they are offered. -/
def kinds (choices : GrammarChoices) : List NodeKind :=
  [commandGenerator choices, grammarSentence, wildcardResolver]

/-! ## Work -/

/-- The work of a node: it may note something and end in a fault. -/
abbrev Work := ExceptT Fault (StateM Log)

/-- The work with an ordinary fault noted under the node's name and told by
    `failed`. -/
def reporting (node : Text) (failed : Fault → α) (work : Work α) : Work α :=
  tryCatch work fun f => do
    if f.isOrdinary then
      Log.error (node ++ ": ".text ++ f.message)
      return failed f
    else throw f

def failure (message : Text) : Text := "No task generated: ".text ++ message

/-- The entities a text describes; a blank text stands for the bundled ones. -/
def entities (d : Disk) (t : Text) : Work Store :=
  let (store, fault) :=
    if (Text.trim t).isEmpty then Store.empty.loadFile d [] else Store.empty.loadText t
  match fault with
  | none => return store
  | some f => throw (.entities f)

/-- The name of a grammar written by hand. -/
def inlineName : Text := "inline".text

/-- The grammar in a text. -/
def inlineGrammar (d : Disk) (t : Text) : Work Grammar :=
  ExceptT.adapt Fault.grammar (Grammar.parse d t none (some inlineName) true)

/-- The grammars of a source, and the name of the one to use if there is only one. -/
def grammars (d : Disk) (source grammar : Text) : Work (List Grammar × Option Text) := do
  if source = GrammarChoices.inlineLabel then
    let g ← inlineGrammar d grammar
    return ([g], some g.name)
  else if source = GrammarChoices.randomLabel then
    return (← ExceptT.adapt Fault.grammar (Grammar.loadFolder d none), none)
  else
    match GrammarChoices.ofFolder d none with
    | .error f => throw (.grammar (.disk f))
    | .ok choices =>
      match choices.paths.lookup source with
      | none => throw (.unknownSource source)
      | some path =>
        let g ← ExceptT.adapt Fault.grammar (Grammar.load d path true)
        return ([g], some g.name)

/-- The metadata of a task as a text of several lines. -/
def metadataText (t : Task) : Text := Text.join "\n".text (t.metadata.map (·.display))

/-- A task whose text and metadata can be written. -/
def writable (t : Task) : Work Task :=
  if t.isWritable && t.hasTextMetadata then return t else throw (.task .unwritableName)

structure CommandOutput where
  command : Text
  metadata : Text
  context : Properties

/-- What a task adds to a context. -/
def contextOf (t : Task) (context : Properties) : Properties :=
  ((context.insert "command".text (.text t.text)).insert "grammar".text (.text t.grammar)).insert
    "assignments".text (.map (t.assignments.map fun (k, name) => (.text k, name.value)))

/-- Makes a command. -/
def generate (d : Disk) (source grammar entityText : Text) (seed : Int) (tier : Tier)
    (context : Properties) : Work CommandOutput :=
  let failed (message : Text) : CommandOutput := ⟨[], failure message, context⟩
  reporting generatorName (fun f => failed f.message) do
    let store ← entities d entityText
    let (grammars, name) ← grammars d source grammar
    let (outcome, g) := (TaskSource.task tier name).run (TaskSource.start grammars store (Seeded.mk seed))
    modify (· ++ g.log)
    match outcome with
    | .error f => throw f
    | .ok none => return failed "every attempt failed".text
    | .ok (some t) =>
      let t ← writable t
      return ⟨t.text, metadataText t, contextOf t context⟩

/-- Draws a sentence from a grammar; empty if that fails. -/
def expand (d : Disk) (grammar : Text) (seed : Int) : Work Text :=
  reporting sentenceName (fun _ => []) do
    let g ← inlineGrammar d grammar
    match (Sentence.draw g.rules).run (Seeded.mk seed) with
    | (.ok t, _) => return t
    | (.error f, _) => throw (.sentence f)

/-- Resolves the wildcards of a sentence: the command and its metadata. -/
def resolve (d : Disk) (sentence entityText : Text) (seed : Int) (tier : Tier) : Work (Text × Text) :=
  reporting resolverName (fun f => ([], failure f.message)) do
    let store ← entities d entityText
    let (outcome, r) := (Resolver.task store sentence).run
      (Resolver.start store tier (Seeded.mk seed) firstAutomatic)
    modify (· ++ r.log)
    match outcome with
    | .ok t =>
      let t ← writable t
      return (t.text, metadataText t)
    | .error f => throw (.task f)

end Node

end Errand
