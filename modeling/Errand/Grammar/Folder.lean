/-
  Errand.Grammar.Folder — the grammars in a folder.

  A grammar file is one whose name ends in `.txt`, in any case. Files are taken in
  the order of their names. A list of them to choose from is remembered for the
  folders asked for last, until it is forgotten on demand.
-/

import Errand.Grammar.Loading

namespace Errand

/-- The names of the grammar files among those of a folder, in order. -/
def grammarNames (names : List Text) : List Text :=
  (names.filter fun name => Text.endsWith ".txt".text (Text.lower name)).mergeSort
    fun a b => decide (a ≤ b)

/-! ## All grammars of a folder -/

namespace Grammar

/-- The grammars of a folder, by default the one with the bundled grammars. A file
    that holds none is left out with a warning. -/
def loadFolder (d : Disk) (folder : Option Text) : Loading (List Grammar) := do
  let folder := (folder.filter (!·.isEmpty)).getD (Bundled.grammarFolder d)
  match d.list folder with
  | .error f =>
    if f.isSystemFault then
      Log.warn ("Cannot list grammar folder ".text ++ folder ++ ": ".text ++ f.message folder)
      return []
    else throw (.disk f)
  | .ok names =>
    let found ← (grammarNames names).mapM fun name =>
      tryCatch (some <$> load d (Path.join folder name) true) fun f => match f with
        | .disk f => throw (.disk f)
        | f => do
          Log.warn ("Skipping grammar ".text ++ name ++ ": ".text ++ f.message)
          return none
    return found.filterMap id

end Grammar

/-! ## Choices -/

/-- The ways to choose a grammar, and where the grammars that stand in files are. -/
structure GrammarChoices where
  labels : List Text
  paths : List (Text × Text)

namespace GrammarChoices

/-- The label of a grammar that is written by hand. -/
def inlineLabel : Text := "inline".text

/-- The label of a grammar picked by tier. -/
def randomLabel : Text := "random".text

def tooltip : Text :=
  ("Where the grammar comes from. 'inline' uses the grammar text below, " ++
    "'random' picks one of the files in the grammars folder by tier, " ++
    "anything else is a single grammar file.").text

/-- The path of a label set, in the place that the label has already if it has
    one. -/
def setPath (label path : Text) (paths : List (Text × Text)) : List (Text × Text) :=
  if paths.any (·.1 == label) then
    paths.map fun (l, p) => (l, if l = label then path else p)
  else paths ++ [(label, path)]

/-- The choices that a folder offers; one that cannot be listed offers none of its
    own. A label is a file name without its ending. -/
def ofFolder (d : Disk) (folder : Option Text) : Except DiskFault GrammarChoices :=
  let folder := folder.getD (Bundled.grammarFolder d)
  let ofNames (names : List Text) : GrammarChoices :=
    let files := (grammarNames names).filter fun name => d.isFile (Path.join folder name)
    let label (name : Text) : Text := name.take (name.length - 4)
    { labels := [inlineLabel, randomLabel] ++ files.map label
      paths := files.foldl (fun ps name => setPath (label name) (Path.join folder name) ps) [] }
  match d.list folder with
  | .ok names => .ok (ofNames names)
  | .error f => if f.isSystemFault then .ok (ofNames []) else .error f

end GrammarChoices

/-- The choices of the folders asked for last, the latest first. -/
structure ChoiceMemory where
  recent : List (Option Text × GrammarChoices)

namespace ChoiceMemory

def empty : ChoiceMemory := ⟨[]⟩

/-- How many folders are remembered. -/
def capacity : Nat := 4

/-- The choices of a folder, as remembered if they are. -/
def ask (m : ChoiceMemory) (d : Disk) (folder : Option Text) :
    Except DiskFault (GrammarChoices × ChoiceMemory) :=
  let answer (c : GrammarChoices) : GrammarChoices × ChoiceMemory :=
    (c, ⟨((folder, c) :: m.recent.filter (·.1 != folder)).take capacity⟩)
  match m.recent.lookup folder with
  | some c => .ok (answer c)
  | none => (GrammarChoices.ofFolder d folder).map answer

end ChoiceMemory

end Errand
