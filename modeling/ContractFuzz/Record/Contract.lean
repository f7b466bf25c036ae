import ContractFuzz.Abi.Definition
import ContractFuzz.Graph.Distance
/-!
# Contracts and their functions

## Main definitions

* `Contract`: a contract under test, with what its deployment and analysis have yielded so far.
* `Contract.attachAnalysis`: taking up an analysis, once.
* `ContractFunction`, `AbiDefinition.functions`: the functions of a contract as records.
* `Contract.inputsOf`: the parameters of a function.
-/

namespace ContractFuzz

/-- A contract under test. -/
structure Contract where
  /-- Its id. -/
  id : ContractId
  /-- The task that tests it. -/
  task : TaskId
  /-- Its name. -/
  name : String
  /-- Its interface definition, as text. -/
  abi : String
  /-- Where it was deployed last. -/
  address : Option String
  /-- The hash of its last deployment. -/
  deployment : Option String
  /-- Its control flow, once it is analyzed. -/
  graph : Option ControlFlowGraph
  /-- The distances to its critical instructions. -/
  distances : DistanceMap
  /-- The number of its critical instructions. -/
  targetCount : Nat

/-- A function of a contract, or its constructor. -/
structure ContractFunction where
  /-- Its id. -/
  id : FunctionId
  /-- The contract it belongs to. -/
  contract : ContractId
  /-- The name under which it is known. -/
  name : String
  /-- The number of its parameters. -/
  arity : Nat
  /-- Whether it accepts payments. -/
  payable : Bool
  /-- Whether it is the constructor. -/
  isConstructor : Bool
deriving DecidableEq

namespace Contract

/-- A contract that was neither deployed nor analyzed. -/
def new (id : ContractId) (task : TaskId) (name abi : String) : Contract :=
  ⟨id, task, name, abi, none, none, none, .empty, 0⟩

/-- The parsed interface definition. -/
def definition (c : Contract) : Except Failure AbiDefinition := AbiDefinition.parse c.abi

/-- Whether an analysis was taken up. -/
def isAnalyzed (c : Contract) : Bool := c.graph.isSome

/-- The control flow; before the analysis nothing is known of it. -/
def knownGraph (c : Contract) : ControlFlowGraph := c.graph.getD .empty

/-- The number of known instructions. -/
def instructionCount (c : Contract) : Nat := c.knownGraph.instructions.size

/-- Take up an analysis. The first one stays: a later one is dropped, which the answer tells. -/
def attachAnalysis (c : Contract) (graph : ControlFlowGraph) (distances : DistanceMap) :
    Bool × Contract :=
  if c.isAnalyzed then (false, c)
  else (true, { c with graph := some graph, distances, targetCount := distances.size })

/-- The parameters of a function of the contract. -/
def inputsOf (c : Contract) (f : ContractFunction) : Except Failure (List AbiParam) := do
  let definition ← c.definition
  if f.isConstructor then return definition.constructorInputs
  else return (← definition.method f.name).inputs

end Contract

namespace AbiDefinition

/-- The constructor as a record; one that is not declared takes nothing. -/
def constructorRecord (d : AbiDefinition) (contract : ContractId) (id : FunctionId) :
    ContractFunction :=
  ⟨id, contract, "constructor", d.constructorInputs.length, d.constructor?.any (·.payable), true⟩

/-- A function as a record. -/
def methodRecord (contract : ContractId) (m : AbiMethod) (id : FunctionId) : ContractFunction :=
  ⟨id, contract, m.name, m.inputs.length, m.payable, false⟩

/-- The constructor and all functions as records, numbered from `first` on. -/
def functions (d : AbiDefinition) (contract : ContractId) (first : Nat) :
    List ContractFunction :=
  d.constructorRecord contract ⟨first⟩ ::
    d.methods.values.mapIdx fun i m => methodRecord contract m ⟨first + 1 + i⟩

end AbiDefinition

end ContractFuzz
