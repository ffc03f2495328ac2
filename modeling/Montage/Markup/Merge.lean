import Montage.Markup.Node

/-!
Entries that are merged into a mapping. What stands under a merge key is a mapping, or a sequence of
mappings of which the first counts most; their entries come in front of the mapping's own, which count
more because they come later. A mapping may be merged into itself: its merge keys are gone by then.
-/

namespace Montage.Markup

abbrev Entries := List (Nat × Nat)

namespace Nodes

def isMergeKey (nodes : Nodes) (n : Nat) : Bool := (nodes.nodeAt n).tag = .merge

/-- What stands under the first merge key, and the other entries. -/
def takeMerge? (nodes : Nodes) : Entries → Option (Nat × Entries)
  | [] => none
  | (key, n) :: rest =>
    if nodes.isMergeKey key then some (n, rest)
    else (takeMerge? nodes rest).map fun (source, others) => (source, (key, n) :: others)

/-- How many merge keys the mappings have. -/
def mergeCount (nodes : Nodes) : Nat :=
  nodes.toList.foldl (fun count n => match n with
    | .mapping _ entries => count + entries.countP (nodes.isMergeKey ·.1)
    | _ => count) 0

def setEntries (nodes : Nodes) (n : Nat) (entries : Entries) : Nodes :=
  nodes.setIfInBounds n (.mapping (nodes.nodeAt n).tag entries)

/-- The key `=` is a text. -/
def settleKey (nodes : Nodes) (key : Nat) : Nodes :=
  let n := nodes.nodeAt key
  if n.tag = .equals then nodes.setIfInBounds key (n.withTag .str) else nodes

end Nodes

abbrev Merging := StateT Nodes (Except Fault)

namespace Merging

/-- What a node adds to the mapping that it is merged into, given the entries of a mapping. -/
def additions (entriesOf : Nat → Merging Entries) (source : Nat) : Merging Entries := do
  match (← get).nodeAt source with
  | .mapping .. => entriesOf source
  | .sequence _ items =>
    let parts ← items.mapM fun n => do
      match (← get).nodeAt n with
      | .mapping .. => entriesOf n
      | _ => throw .markup
    return parts.reverse.flatten
  | .scalar .. => throw .markup

/-- The entries of a mapping without merge keys, behind those that are merged into it; the mapping
keeps them. The first number bounds the merge keys that are left. -/
def flatten : Nat → Nat → Entries → Merging Entries
  | 0, _, _ => throw .markup
  | fuel + 1, n, merged => do
    match (← get).takeMerge? ((← get).entriesAt n) with
    | some (source, others) =>
      modify (·.setEntries n others)
      let more ← additions (flatten fuel · []) source
      flatten fuel n (merged ++ more)
    | none =>
      let own := (← get).entriesAt n
      modify fun nodes => own.foldl (fun nodes e => nodes.settleKey e.1) nodes
      modify (·.setEntries n (merged ++ own))
      return merged ++ own

end Merging

end Montage.Markup
