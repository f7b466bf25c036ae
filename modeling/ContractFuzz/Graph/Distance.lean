import ContractFuzz.Graph.ControlFlow
/-!
# Distances to critical instructions

How many edges separate every block of a graph from each instruction of interest, and what a set
of executed instructions says about the distance that is left.

## Main definitions

* `unreachable`: the number that stands for "no path".
* `hopsTo`: the distances of all blocks to one block, by breadth-first search along reversed edges.
* `DistanceMap`, `distanceMap`: those distances for every critical instruction.
* `minDistance`, `maxDistanceSum`, `delta`: what is read off a distance map.
-/

namespace ContractFuzz

/-- The distance between a block and an instruction that it cannot reach. -/
def unreachable : Nat := 4294967295

/-- The distances of blocks to one instruction. -/
abbrev BlockDistances := SortedMap Pc Nat

/-- The distances of blocks to each critical instruction. -/
abbrev DistanceMap := SortedMap Pc BlockDistances

/-- Names of operations compare without regard to the case of ASCII letters. -/
def normalizedOp (op : String) : String := op.map Char.toUpper

/-- Whether an operation is one of those listed. -/
def isCritical (critical : List String) (op : String) : Bool :=
  (critical.map normalizedOp).contains (normalizedOp op)

namespace ControlFlowGraph

/-- Record `distance` for a block without one, and remember it as newly found. -/
def discover (distance : Nat) (found : BlockDistances × List Pc) (block : Pc) :
    BlockDistances × List Pc :=
  if found.1.contains block then found
  else (found.1.insert block distance, found.2 ++ [block])

/-- Go back over all edges into the blocks found last, then into those found by that, until
nothing new is found. Each round finds blocks one hop further away, so there are no more rounds
than blocks. -/
def search (predecessors : SortedMap Pc PcSet) :
    (rounds : Nat) → (distance : Nat) → (last : List Pc) → BlockDistances → BlockDistances
  | 0, _, _, found => found
  | rounds + 1, distance, last, found =>
    let before := last.flatMap fun b => ((predecessors.get? b).getD .empty).toList
    let (found, next) := before.foldl (discover (distance + 1)) (found, [])
    if next.isEmpty then found else search predecessors rounds (distance + 1) next found

/-- Every block of the graph with its distance to the block `target`. Distances fit into thirty-two
bits: no more than `unreachable` hops are counted. -/
def hopsTo (g : ControlFlowGraph) (target : Pc) : BlockDistances :=
  let found := search g.predecessors g.blocks.size 0 [target] (.insert .empty target 0)
  .ofList (g.blocks.keys.map fun b => (b, min unreachable ((found.get? b).getD unreachable)))

/-- The distances of all blocks to the block of each critical instruction. -/
def distanceMap (g : ControlFlowGraph) (critical : List String) : DistanceMap :=
  .ofList (g.instructions.entries.filterMap fun (pc, op) =>
    if isCritical critical op then
      (g.containingBlock? pc).map fun block => (pc, g.hopsTo block)
    else none)

/-- The blocks that hold executed instructions. -/
def touchedBlocks (g : ControlFlowGraph) (executed : PcSet) : PcSet :=
  .ofList (executed.toList.filterMap g.containingBlock?)

/-- The smallest distance of any touched block to any critical instruction. -/
def minDistance (g : ControlFlowGraph) (distances : DistanceMap) (executed : PcSet) : Nat :=
  let touched := (g.touchedBlocks executed).toList
  ((distances.values.flatMap fun hops => touched.filterMap hops.get?).min?).getD unreachable

end ControlFlowGraph

namespace DistanceMap

/-- Every finite distance of the map, with its block. -/
def finite (m : DistanceMap) : List (Pc × Nat) :=
  (m.values.flatMap (·.entries)).filter (·.2 < unreachable)

/-- The largest finite distance of each block. -/
def farthest (m : DistanceMap) : BlockDistances :=
  m.finite.foldl (fun far e => far.insert e.1 (max ((far.get? e.1).getD 0) e.2)) .empty

/-- The sum over all blocks of their largest finite distance, by which distances are scaled. -/
def maxDistanceSum (m : DistanceMap) : Nat := m.farthest.values.foldl (· + ·) 0

/-- The largest finite distance of the map. -/
def worst (m : DistanceMap) : Nat := ((m.finite.map (·.2)).max?).getD 0

/-- The progress from one smallest distance to another: the hops gained. When the targets were out
of reach before, the gain over the worst finite distance, on top of `unreachable`. -/
def delta (m : DistanceMap) (before after : Nat) : Nat :=
  if after = unreachable then 0
  else if before = unreachable then unreachable + (m.worst - after)
  else before - after

end DistanceMap

/-- The hops gained, of a progress that may carry `unreachable` on top. -/
def gainedHops (delta : Nat) : Nat := if unreachable ≤ delta then delta - unreachable else delta

end ContractFuzz
