/-
  Errand.Grammar.Loading — grammars from texts and files.

  The comments of a text may take in other files, those in turn others. A file
  that is being read is not read once more, so every reading ends. What cannot be
  found is left out with a warning; a file to be mounted under a
  nonterminal leaves a placeholder there that says why it is none.
-/

import Errand.Bundled
import Errand.Entity.Kind
import Errand.Grammar.Directive
import Errand.Grammar.Expansion
import Errand.Grammar.Line
import Errand.Log

namespace Errand

/-! ## Grammars and faults -/

structure Grammar where
  name : Text
  tier : Tier
  rules : Rules
  path : Option Text

/-- Why there is no grammar. -/
inductive GrammarFault where
  /-- No rule for the start nonterminal. -/
  | noStart (label : Text)
  | unreadable (path reason : Text)
  /-- A file is no text, or a path cannot be one. -/
  | disk (fault : DiskFault)
  deriving DecidableEq, Repr

def GrammarFault.message : GrammarFault → Text
  | .noStart label => "Grammar ".text ++ Text.shown label ++ " has no ".text ++
      startNonterminal ++ " rule".text
  | .unreadable path reason => "Cannot read grammar file ".text ++ path ++ ": ".text ++ reason
  | .disk f => f.message []

namespace Grammar

def hasStart (g : Grammar) : Bool := (g.rules.find? startNonterminal).isSome

def summary (g : Grammar) : Text :=
  "Grammar(name=".text ++ Text.shown g.name ++ ", tier=".text ++ g.tier.title ++
    ", rules=".text ++ decimal g.rules.length ++ ")".text

/-! ## Reading -/

/-- What a text declares and the rules of it and the files it takes in. -/
structure Contents where
  name : Option Text
  tier : Tier
  rules : Rules

def Contents.empty : Contents := ⟨none, .unknown, []⟩

/-- A reading that may warn. Only a file that is no text ends it. -/
abbrev Reading := ExceptT DiskFault (StateM Log)

namespace Contents

/-- Takes up a name or a tier that a comment declares; the first one counts. -/
def declare (c : Contents) (comment : Text) : Contents :=
  { c with
    name := match c.name with
      | some name => some name
      | none => Directive.name? comment
    tier := if c.tier = .unknown then ((Directive.tier? comment).bind Tier.ofText?).getD .unknown
      else c.tier }

/-- Takes up the rule that a line of code states, if it states one. -/
def state (c : Contents) (code : Text) : Contents :=
  match Rule.read? code with
  | some rule => { c with rules := c.rules.merge rule }
  | none => c

end Contents

/-- What stands in the place of a grammar that could not be mounted: a wildcard
    that shows nothing and carries the reason. -/
def placeholder (reason : Text) : Text :=
  let escaped := reason.flatMap fun (c : CodePoint) =>
    if c = '(' || c = ')' || c = '|' then "\\".text ++ [c] else [c]
  "\x7bvoid meta: ".text ++ escaped ++ "\x7d".text

/-- The rules with what an inclusion adds; `readFile` reads the file at an absolute
    path, and `loading` are the files being read. -/
def takeIn (d : Disk) (readFile : Text → Reading Contents) (loading : List Text)
    (i : Directive.Inclusion) (path : Text) (rules : Rules) : Reading Rules := do
  let full := Path.absolute d.current path
  if loading.contains full then return rules
  match i.isImport, i.mount with
  | true, some nonterminal =>
    let reason ←
      if d.isFile full then do
        let c ← readFile full
        if (c.rules.find? startNonterminal).isSome then
          pure ("Importing ".text ++ path ++ " under a non-terminal is not implemented".text)
        else pure ("Cannot load grammar file ".text ++ path)
      else pure ("File ".text ++ path ++ " not found".text)
    Log.warn (reason ++ "; inserting placeholder into ".text ++ nonterminal)
    return rules.merge ⟨nonterminal, [placeholder reason]⟩
  | isImport, _ =>
    if d.isFile full then
      let c ← readFile full
      let taken := if isImport then c.rules.filter (·.nonterminal != startNonterminal) else c.rules
      return taken.foldl Rules.merge rules
    else
      Log.warn ("Grammar ".text ++ i.word ++ ": ".text ++ path ++ " not found, skipped".text)
      return rules

/-- The contents of a text. What a comment declares comes before the code of its
    line. -/
def readLines (d : Disk) (readFile : List Text → Text → Reading Contents) (loading : List Text)
    (path : Option Text) (t : Text) : Reading Contents :=
  let base := match path with
    | some p => Path.folder p
    | none => d.current
  let loading := (path.map (Path.absolute d.current)).toList ++ loading
  (GrammarLine.ofText t).foldlM (fun c line => do
    let c ← match line.comment with
      | none => pure c
      | some comment =>
        let c := c.declare comment
        match Directive.inclusion? comment with
        | none => pure c
        | some i =>
          let rules ← takeIn d (readFile loading) loading i (Path.join base i.target) c.rules
          pure { c with rules }
    return c.state line.code) Contents.empty

/-- The text of a file as a step of a reading. -/
def textOf (d : Disk) (path : Text) : Reading Text :=
  match d.text path with
  | .ok t => pure t
  | .error f => throw f

/-- The contents of a text whose inclusions nest at most `depth` deep. -/
def readWithin (d : Disk) : (depth : Nat) → (loading : List Text) → (path : Option Text) → Text →
    Reading Contents
  | 0, loading, path, t => readLines d (fun _ _ => pure Contents.empty) loading path t
  | depth + 1, loading, path, t =>
    readLines d (fun loading path => do readWithin d depth loading (some path) (← textOf d path))
      loading path t

/-- The contents of a text. The files being read are at different paths, so never more of
    them than the depth given here. -/
def read (d : Disk) (path : Option Text) (t : Text) : Reading Contents :=
  readWithin d Disk.pathCount [] path t

/-! ## Loading -/

/-- A loading that may warn. -/
abbrev Loading := ExceptT GrammarFault (StateM Log)

/-- The grammar of a text. Its name is the one given, else the one declared, else
    that of its file. -/
def parse (d : Disk) (t : Text) (path name : Option Text) (requireStart : Bool) : Loading Grammar := do
  let origin := path.filter (!·.isEmpty)
  let c ← ExceptT.adapt GrammarFault.disk (read d origin t)
  let called := match name with
    | some name => name
    | none => c.name.getD []
  let called := if called.isEmpty then ((origin.map (Path.stem ∘ Path.fileName)).getD []) else called
  let g : Grammar := ⟨called, c.tier, c.rules.expanded, path⟩
  if requireStart && !g.hasStart then
    throw (.noStart (if called.isEmpty then origin.getD "<text>".text else called))
  return g

/-- The grammar in a file. -/
def load (d : Disk) (path : Text) (requireStart : Bool) : Loading Grammar :=
  match d.text path with
  | .ok t => parse d t (some path) none requireStart
  | .error f =>
    throw (if f.isSystemFault then .unreadable path (f.message path) else .disk f)

end Grammar

end Errand
