/-
  Errand.Bundled — the grammars and the entities that come with the library.

  They lie in the folder that a disk calls its home: three grammars of different
  tiers, the rules they share in a folder of their own, and an apartment with its
  rooms, furniture, objects and people.
-/

import Errand.Files.Disk

namespace Errand.Bundled

/-- Lines as the text of a file. -/
def text (lines : List String) : String := "\n".intercalate lines ++ "\n"

/-! ## Grammars -/

/-- The grammar of the easy tier. -/
def easy : String :=
  text
    [ "; grammar name Simple fetch",
      "; grammar tier Easy",
      "; import common/rules.txt",
      "",
      "$Main     = $fetch | $deliver | $greet",
      "",
      "$fetch    = $vbtake the \x7bkobject\x7d from the \x7bplacement\x7d and $vbbring it to $me.",
      "$deliver  = $vbgo to the \x7bbeacon\x7d, $vbbring the \x7bobject 1\x7d to \x7bname 1\x7d and tell \x7bpron obj\x7d (where you found it | it is a \x7bobject 1\x7d).",
      "$greet    = $vbgo to the \x7broom\x7d, $vbfind \x7bname\x7d and say hello." ]

/-- The grammar of the moderate tier. -/
def moderate : String :=
  text
    [ "// grammar name Category errands",
      "// grammar tier Moderate",
      "// import common/rules.txt",
      "",
      "$Main     = $count | $sort | $question",
      "",
      "$count    = $vbgo to the \x7bplacement 1\x7d, count the \x7bcategory 1\x7d there and report to $me.",
      "$sort     = $vbtake the \x7bobject 1 where category = \x7bcategory 1\x7d\x7d and $vbplace it on the \x7bplacement 2\x7d. # same category",
      "$question = $vbgo to the \x7broom\x7d, $vbfind \x7bname 1\x7d and answer \x7bpron obj\x7d a \x7bquestion\x7d." ]

/-- The grammar of the high tier. -/
def hard : String :=
  text
    [ "; grammar name Hidden errands",
      "; grammar tier High",
      "; import common/rules.txt",
      "",
      "$Main     = $hidden | $gesture",
      "",
      "$hidden   = $vbbring me the \x7baobject?\x7d from the \x7bplacement?\x7d. \x7bvoid meta: The robot must find the object on its own\x7d",
      "$gesture  = $vbgo to the \x7broom 1\x7d, $vbfind the person \x7bgesture\x7d and guide them to the \x7bbeacon where room = \x7broom 1\x7d\x7d." ]

/-- The rules that the grammars share. -/
def shared : String :=
  text
    [ "/*",
      " * Rules shared by the bundled grammars.",
      " * Lives in a subfolder so it is never picked as a grammar of its own.",
      " */",
      "; grammar name Common rules",
      "",
      "$vbgo     = go | navigate | move",
      "$vbbring  = bring | give | deliver",
      "$vbtake   = take | grasp | pick up",
      "$vbplace  = put | place | leave",
      "$vbfind   = find | look for | locate",
      "$me       = me | the operator" ]

/-! ## Entities -/

/-- The apartment. -/
def entities : String :=
  text
    [ "# Example arena: rooms with their locations, object categories, people,",
      "# gestures and predefined questions. Used when a node gets no entity text.",
      "",
      "rooms:",
      "  - name: kitchen",
      "    floor: ground",
      "    locations:",
      "      - \x7bname: fridge, placement: true\x7d",
      "      - \x7bname: kitchen table, placement: true, beacon: true\x7d",
      "      - \x7bname: kitchen door, beacon: true\x7d",
      "  - name: living room",
      "    floor: ground",
      "    locations:",
      "      - \x7bname: couch, placement: true, beacon: true\x7d",
      "      - \x7bname: bookcase, placement: true\x7d",
      "      - \x7bname: tv stand, placement: true\x7d",
      "  - name: bedroom",
      "    floor: first",
      "    locations:",
      "      - \x7bname: bed, placement: true, beacon: true\x7d",
      "      - \x7bname: desk, placement: true\x7d",
      "  - name: hallway",
      "    floor: ground",
      "    locations:",
      "      - \x7bname: entrance, beacon: true\x7d",
      "      - \x7bname: shoe rack, placement: true\x7d",
      "",
      "categories:",
      "  - name: drinks",
      "    location: fridge",
      "    room: kitchen",
      "    objects:",
      "      - \x7bname: coke, type: known\x7d",
      "      - \x7bname: orange juice, type: known\x7d",
      "      - \x7bname: water bottle, type: alike\x7d",
      "  - name: snacks",
      "    location: kitchen table",
      "    room: kitchen",
      "    objects:",
      "      - \x7bname: chips, type: known\x7d",
      "      - \x7bname: cookies, type: alike\x7d",
      "      - \x7bname: crackers, type: known\x7d",
      "  - name: cleaning stuff",
      "    location: bookcase",
      "    room: living room",
      "    objects:",
      "      - \x7bname: sponge, type: known\x7d",
      "      - \x7bname: cloth, type: alike\x7d",
      "  - name: toys",
      "    location: desk",
      "    room: bedroom",
      "    objects:",
      "      - \x7bname: ball, type: known, color: red\x7d",
      "      - \x7bname: teddy bear, type: special, tier: high\x7d",
      "",
      "names:",
      "  - \x7bname: James, gender: male\x7d",
      "  - \x7bname: John, gender: male\x7d",
      "  - \x7bname: Robert, gender: male\x7d",
      "  - \x7bname: Mary, gender: female\x7d",
      "  - \x7bname: Patricia, gender: female\x7d",
      "  - \x7bname: Linda, gender: female\x7d",
      "",
      "gestures:",
      "  - \x7bname: waving, tier: easy\x7d",
      "  - \x7bname: raising their left arm, tier: easy\x7d",
      "  - \x7bname: pointing to the left, tier: moderate\x7d",
      "  - \x7bname: pointing to the right, tier: moderate\x7d",
      "",
      "questions:",
      "  - \x7bquestion: \"What day is today?\", answer: \"[varies]\", tier: easy\x7d",
      "  - \x7bquestion: \"What is the capital of Japan?\", answer: Tokyo, tier: easy\x7d",
      "  - \x7bquestion: \"How many legs does a spider have?\", answer: Eight, tier: moderate\x7d",
      "  - \x7bquestion: \"Which is the highest mountain in the world?\", answer: Mount Everest, tier: high\x7d" ]

/-! ## The folder -/

/-- The bundled files, by their names from the home folder on. -/
def files : List (List String × String) :=
  [ (["grammars", "easy.txt"], easy),
    (["grammars", "moderate.txt"], moderate),
    (["grammars", "hard.txt"], hard),
    (["grammars", "common", "rules.txt"], shared),
    (["entities", "entities.yaml"], entities) ]

/-- The path of the folder with the bundled grammars. -/
def grammarFolder (d : Disk) : Text := Path.join d.home "grammars".text

/-- The path of the bundled entities. -/
def entityFile (d : Disk) : Text := Path.join d.home "entities/entities.yaml".text

/-- A disk with nothing but the bundled files and an empty current folder. -/
def disk (home current : Text) : Disk :=
  files.foldl
    (fun d (names, content) =>
      d.put (Path.names home ++ names.map String.text) (.file content.toUTF8))
    ((⟨[], current, home⟩ : Disk).makeFolder current)

end Errand.Bundled
