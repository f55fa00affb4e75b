/-
  Errand.Yaml.Merge — mappings merged into others.

  Under a key of merging, a mapping has another mapping or a sequence of them.
  Their pairs come in front of its own, so that its own have the last word; of a
  sequence the first mapping has the last word. Mappings that are merged in have
  those merged in first that they ask for.
-/

import Errand.Yaml.Document

namespace Errand.Yaml.Document

/-- The pairs in front of the first key of merging, the node under that key, and the
    pairs behind. -/
def splitAtMerge (d : Document) :
    List (Nat × Nat) → Option (List (Nat × Nat) × Nat × List (Nat × Nat))
  | [] => none
  | (key, value) :: rest =>
    if d.tag key = .merge then some ([], value, rest)
    else (splitAtMerge d rest).map fun (before, source, after) => ((key, value) :: before, source, after)

/-- The mappings that a node under a key of merging gives, if it is of such a kind. -/
def sources? (d : Document) (n : Nat) : Option (List Nat) :=
  let isMapping (m : Nat) : Bool := match d.content m with
    | .mapping _ => true
    | _ => false
  match d.content n with
  | .scalar _ => none
  | .mapping _ => some [n]
  | .sequence items => if items.all isMapping then some items else none

/-- Other keys of standing in stand for themselves among the keys of a mapping. -/
def settleKeys (d : Document) (n : Nat) : Document :=
  (d.pairs n).foldl (fun d (key, _) => if d.tag key = .standIn then d.setTag key .text else d) d

/-- The loop of `merge`: `merged` are the pairs to come in front. Each key of merging
    is taken out before its mappings are looked at, so that none is met twice. -/
def mergeFrom : Nat → List (Nat × Nat) → Nat → Document → Except Fault Document
  | 0, _, _, _ => .error .malformed
  | fuel + 1, merged, n, d =>
    match d.splitAtMerge (d.pairs n) with
    | none => .ok ((d.settleKeys n).setContent n (.mapping (merged ++ d.pairs n)))
    | some (before, source, after) => do
      let d := d.setContent n (.mapping (before ++ after))
      match d.sources? source with
      | none => .error .malformed
      | some sources =>
        let d ← sources.foldlM (fun d m => mergeFrom fuel [] m d) d
        mergeFrom fuel (merged ++ sources.reverse.flatMap d.pairs) n d

/-- All pairs in all mappings of a document. -/
def pairCount (d : Document) : Nat := ((List.range d.nodes.size).flatMap d.pairs).length

/-- A document in which the mapping `n` has no keys of merging any more. -/
def merge (n : Nat) (d : Document) : Except Fault Document :=
  if (d.splitAtMerge (d.pairs n)).isNone then .ok (d.settleKeys n)
  else mergeFrom (d.pairCount + 1) [] n d

end Errand.Yaml.Document
