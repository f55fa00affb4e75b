/-
  Errand.Where.Clause — where clauses as trees, and how they are written.

  A clause is one or more terms with a connective between neighbours; a term is a
  condition, or not and a condition; a condition is a property, a comparator and
  a literal. No connective binds closer than another: the tree leans to the left.
  A comparator of size needs a number behind it.

  `parse` reads a clause, `Expr.text` writes a tree, `conjunction` joins clauses that
  were read apart, each keeping its own grouping.
-/

import Errand.Where.Token
import Errand.Number.Shortest

namespace Errand.Where

/-! ## Trees -/

/-- A property compared with a literal. -/
structure Condition where
  property : Text
  comparator : Comparator
  literal : Literal
  deriving DecidableEq, Repr

inductive Expr where
  | condition (c : Condition)
  | negation (e : Expr)
  | joined (connective : Connective) (a b : Expr)
  deriving DecidableEq, Repr

/-- A clause as it was written, and its tree. -/
structure Clause where
  text : Text
  root : Expr

/-! ## Writing -/

/-- Quotes and backslashes get a backslash. -/
def escaped (t : Text) : Text :=
  Text.replaceChar '"' "\\\"".text (Text.replaceChar '\\' "\\\\".text t)

/-- A text as a literal in double quotes. -/
def quote (t : Text) : Text := "\"".text ++ escaped t ++ "\"".text

def Literal.written : Literal → Text
  | .text t => quote t
  | .number (.integer n) => signedDecimal n
  | .number (.real x) => x.text
  | .bool b => if b then "true".text else "false".text
  | .null => "null".text
  | .asNumber written _ => written
  | .asTruth counts _ => if counts then "true".text else "false".text
  | .asText => []

def Condition.written (c : Condition) : Text :=
  c.property ++ " ".text ++ c.comparator.sign ++ " ".text ++ c.literal.written

def Expr.written : Expr → Text
  | .condition c => c.written
  | .negation e => "not ".text ++ e.written
  | .joined connective a b => a.written ++ " ".text ++ connective.word ++ " ".text ++ b.written

/-- Whether a tree can be written. A literal that is to be a text and is none
    cannot. -/
def Expr.isWritable : Expr → Bool
  | .condition c => c.literal != .asText
  | .negation e => e.isWritable
  | .joined _ a b => a.isWritable && b.isWritable

/-! ## Reading -/

/-- The tokens still to read, with the clause they come from. -/
structure Input where
  clause : Text
  tokens : List Token

namespace Input

/-- A fault at a token, or at the end where there is none. -/
def fault (i : Input) (reason : Reason) (at_ : Option Token) : Fault :=
  ⟨reason, i.clause, (at_.map (·.position)).getD i.clause.length⟩

/-- What a message shows of a token; the end shows as nothing. -/
def shownText (t : Option Token) : Text := (t.map Token.text).getD []

end Input

/-- A condition, and the tokens behind it. -/
def parseCondition (clause : Text) (tokens : List Token) :
    Except Fault (Condition × List Token) :=
  let fault := Input.fault ⟨clause, tokens⟩
  match tokens with
  | ⟨.name property, source, _⟩ :: afterName =>
    match afterName with
    | ⟨.comparator comparator, spelling, place⟩ :: afterComparator =>
      match afterComparator with
      | ⟨.literal literal, _, _⟩ :: rest =>
        if comparator.isOrdering && !literal.isNumber then
          .error (fault (.needsNumber comparator.sign) (some ⟨.comparator comparator, spelling, place⟩))
        else .ok (⟨property, comparator, literal⟩, rest)
      | _ => .error (fault (.noValue comparator.sign) afterComparator.head?)
    | _ => .error (fault (.noComparator source) afterName.head?)
  | _ => .error (fault (.noProperty (Input.shownText tokens.head?)) tokens.head?)

/-- A condition, or not and a condition, and the tokens behind it. -/
def parseTerm (clause : Text) : List Token → Except Fault (Expr × List Token)
  | ⟨.negation, _, _⟩ :: rest =>
    (parseCondition clause rest).map fun (c, after) => (.negation (.condition c), after)
  | tokens => (parseCondition clause tokens).map fun (c, after) => (.condition c, after)

theorem parseCondition_length {clause : Text} {tokens rest : List Token} {c : Condition}
    (h : parseCondition clause tokens = .ok (c, rest)) : rest.length < tokens.length := by
  unfold parseCondition at h
  simp only at h
  split at h
  · split at h
    · split at h
      · split at h
        · simp at h
        · simp only [Except.ok.injEq, Prod.mk.injEq] at h
          obtain ⟨_, rfl⟩ := h
          simp only [List.length_cons]
          omega
      · simp at h
    · simp at h
  · simp at h

theorem parseTerm_length {clause : Text} {tokens rest : List Token} {e : Expr}
    (h : parseTerm clause tokens = .ok (e, rest)) : rest.length < tokens.length := by
  unfold parseTerm at h
  split at h
  · rename_i more
    cases hc : parseCondition clause more with
    | error f => simp [hc, Except.map] at h
    | ok r =>
      simp only [hc, Except.map, Except.ok.injEq, Prod.mk.injEq] at h
      have := parseCondition_length (show parseCondition clause more = .ok (r.1, r.2) from hc)
      obtain ⟨_, rfl⟩ := h
      simp only [List.length_cons]
      omega
  · cases hc : parseCondition clause tokens with
    | error f => simp [hc, Except.map] at h
    | ok r =>
      simp only [hc, Except.map, Except.ok.injEq, Prod.mk.injEq] at h
      have := parseCondition_length (show parseCondition clause tokens = .ok (r.1, r.2) from hc)
      obtain ⟨_, rfl⟩ := h
      exact this

/-- The terms behind a tree, each joined to all before it. -/
def parseMore (clause : Text) (tree : Expr) : List Token → Except Fault Expr
  | [] => .ok tree
  | ⟨.connective connective, _, _⟩ :: rest =>
    match _h : parseTerm clause rest with
    | .error fault => .error fault
    | .ok (term, after) => parseMore clause (.joined connective tree term) after
  | token :: rest =>
    .error (Input.fault ⟨clause, token :: rest⟩ (.noConnective token.text) (some token))
termination_by tokens => tokens.length
decreasing_by
  have := parseTerm_length _h
  simp only [List.length_cons]
  omega

/-- The tree of a clause given as tokens. -/
def parseTokens (clause : Text) (tokens : List Token) : Except Fault Expr :=
  if tokens.isEmpty then .error (Input.fault ⟨clause, tokens⟩ .emptyClause none)
  else match parseTerm clause tokens with
    | .error fault => .error fault
    | .ok (term, rest) => parseMore clause term rest

/-- Reads a clause. -/
def parse (clause : Text) : Except Fault Clause :=
  match tokens clause with
  | .error fault => .error fault
  | .ok found => (parseTokens clause found).map fun root => ⟨clause, root⟩

/-! ## Joining clauses -/

/-- The clauses joined by and, each keeping its own grouping; none for no
    clauses. -/
def conjunction : List Clause → Option Clause
  | [] => none
  | first :: more =>
    some ⟨Text.join " and ".text ((first :: more).map (·.text)),
      more.foldl (fun tree clause => .joined .and tree clause.root) first.root⟩

end Errand.Where
