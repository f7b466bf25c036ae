import ContractFuzz.Graph.ControlFlow
/-!
# Coverage

## Main definitions

* `ControlFlowGraph.coverage`: the part of a graph's instructions that was executed.
-/

namespace ContractFuzz.ControlFlowGraph

/-- The executed instructions that the graph knows, as a part of all it knows; zero if it knows
none. -/
def coverage (g : ControlFlowGraph) (executed : PcSet) : Float :=
  if g.instructions.isEmpty then 0
  else (executed.filter g.instructions.contains).size.toFloat / g.instructions.size.toFloat

end ContractFuzz.ControlFlowGraph
