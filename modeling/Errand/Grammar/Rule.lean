/-
  Errand.Grammar.Rule — production rules and their alternatives.

  A rule gives a nonterminal its alternatives, split at the bars outside all
  round brackets. An alternative that is one bracketed group and nothing else is
  split in turn, so brackets around a whole alternative mean nothing.
-/

import Errand.Text.Bracket
import Errand.Text.Display

namespace Errand

/-! ## Nonterminals -/

/-- The characters of a nonterminal behind its dollar sign. -/
def isRuleChar (c : CodePoint) : Bool :=
  ('0' ≤ c && c ≤ '9') || ('A' ≤ c && c ≤ 'Z') || ('a' ≤ c && c ≤ 'z') || c == '_'

/-- Where every sentence begins. -/
def startNonterminal : Text := "$Main".text

/-! ## Alternatives -/

/-- The inside of a text that is one bracketed group. -/
def unwrapped? : Text → Option Text
  | .char '(' :: rest =>
    match Bracket.closing? .round rest with
    | some (inside, []) => some inside
    | _ => none
  | _ => none

theorem unwrapped?_eq {t inside : Text} (h : unwrapped? t = some inside) :
    t = .char '(' :: (inside ++ [.char ')']) := by
  unfold unwrapped? at h
  split at h
  · split at h
    · rename_i hc
      simp only [Option.some.injEq] at h
      subst h
      rw [Bracket.closing?_eq hc]
      rfl
    · simp at h
  · simp at h

theorem length_unwrapped?_lt {t part inside : Text} (hp : part ∈ Bracket.splitOutside '|' .round t)
    (h : unwrapped? (Text.trim part) = some inside) : inside.length < t.length := by
  have h₁ := Bracket.length_le_of_mem_splitOutside hp
  have h₂ := (Text.trim_sublist part).length_le
  rw [unwrapped?_eq h] at h₂
  simp only [List.length_cons, List.length_append] at h₂
  omega

/-- The alternatives that a text lists. -/
def alternativesIn (t : Text) : List Text :=
  (Bracket.splitOutside '|' .round t).attach.flatMap fun ⟨part, _⟩ =>
    match _h : unwrapped? (Text.trim part) with
    | some inside => alternativesIn inside
    | none => [Text.trim part]
termination_by t.length
decreasing_by exact length_unwrapped?_lt (by assumption) _h

/-- The alternatives that one segment between bars stands for. -/
def alternativesOf (part : Text) : List Text :=
  match unwrapped? (Text.trim part) with
  | some inside => alternativesIn inside
  | none => [Text.trim part]

theorem alternativesIn_eq (t : Text) :
    alternativesIn t = (Bracket.splitOutside '|' .round t).flatMap alternativesOf := by
  rw [alternativesIn, List.flatMap_subtype (g := alternativesOf), List.unattach_attach]
  intro part _
  unfold alternativesOf
  dsimp only
  split
  · simp_all
  · simp_all

/-! ## Rules -/

structure Rule where
  nonterminal : Text
  alternatives : List Text
  deriving DecidableEq, Repr

namespace Rule

/-- The rule a line states: a nonterminal, an equals sign and alternatives that
    do not go beyond the line. -/
def read? (line : Text) : Option Rule :=
  match Text.trimLeft line with
  | .char '$' :: rest =>
    let name := rest.takeWhile isRuleChar
    match Text.trimLeft (rest.dropWhile isRuleChar) with
    | .char '=' :: rest =>
      let rest := Text.trimLeft rest
      let body := Text.trim (rest.takeWhile (· != CodePoint.char '\n'))
      let after := rest.dropWhile (· != CodePoint.char '\n')
      if name.isEmpty || body.isEmpty || !(after.isEmpty || after = "\n".text) then none
      else some ⟨'$' :: name, alternativesIn body⟩
    | _ => none
  | _ => none

/-- The alternatives with others put behind them, those not there yet. -/
def add (r : Rule) (more : List Text) : Rule :=
  ⟨r.nonterminal,
    more.foldl (fun known a => if known.contains a then known else known ++ [a]) r.alternatives⟩

/-- The rule as a line. -/
def written (r : Rule) : Text :=
  r.nonterminal ++ " = ".text ++ Text.join " | ".text r.alternatives

end Rule

/-! ## Collections of rules -/

/-- The rules of a grammar, one a nonterminal, in the order of their making. -/
abbrev Rules := List Rule

namespace Rules

def find? (rules : Rules) (nonterminal : Text) : Option Rule :=
  List.find? (·.nonterminal == nonterminal) rules

def names (rules : Rules) : List Text := rules.map (·.nonterminal)

/-- The rules with one more: its alternatives go to the rule of the same
    nonterminal if there is one. A rule without alternatives counts as none. -/
def merge (rules : Rules) (rule : Rule) : Rules :=
  if rule.alternatives.isEmpty then rules
  else if (rules.find? rule.nonterminal).isSome then
    rules.map fun r => if r.nonterminal = rule.nonterminal then r.add rule.alternatives else r
  else rules ++ [rule]

end Rules

end Errand
