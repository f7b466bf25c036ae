import ContractFuzz.Graph.Coverage
import ContractFuzz.Record.Contract
import ContractFuzz.Record.Task
import ContractFuzz.Record.Transaction
/-!
# Reports

The summary of a finished task: what it reached, how that grew over time, and which weaknesses its
transactions revealed.

## Main definitions

* `replay`: a measure of the executed instructions, after each transaction in order of time.
* `TaskReport`, `TaskReport.build`.
* `writtenNumber?`: what is left of a number once a report is written down.
-/

namespace ContractFuzz

/-- A value sampled at a point in time. -/
structure Sample (α : Type) where
  /-- When it was sampled. -/
  time : Instant
  /-- The value. -/
  value : α

/-- What a report says about one transaction. -/
structure TransactionReport where
  timestamp : Instant
  hash : Option String
  inputs : List String
  weaknesses : SortedSet String
  executed : PcSet
  coverageGain : Float
  distanceGain : Nat

/-- The summary of a task. -/
structure TaskReport where
  /-- Milliseconds from start to expiration. -/
  elapsed : Int
  contractName : String
  coverage : Float
  coverageByTime : List (Sample Float)
  minDistance : Nat
  minDistanceByTime : List (Sample Nat)
  transactions : List TransactionReport
  weaknesses : SortedSet String

namespace TransactionReport

/-- The part of a transaction that is reported. -/
def ofTransaction (tx : Transaction) : TransactionReport :=
  ⟨tx.timestamp, tx.hash, tx.inputs, tx.weaknesses, tx.executed, tx.coverageGain,
    tx.distanceGain⟩

end TransactionReport

/-- Transactions in order of time; those of the same time stay in their order. -/
def inTimeOrder (txs : List Transaction) : List Transaction :=
  txs.mergeSort fun a b => decide (a.timestamp ≤ b.timestamp)

/-- A measure of all that was executed before and by each of the transactions. -/
def samplesFrom {α : Type} (measure : PcSet → α) (executed : PcSet) :
    List Transaction → List (Sample α)
  | [] => []
  | tx :: txs =>
    let executed := executed.union tx.executed
    ⟨tx.timestamp, measure executed⟩ :: samplesFrom measure executed txs

/-- A measure of the executed instructions over time: one sample for each transaction. -/
def replay {α : Type} (measure : PcSet → α) (txs : List Transaction) : List (Sample α) :=
  samplesFrom measure .empty (inTimeOrder txs)

namespace TaskReport

/-- The summary of a task from its contract and its transactions. -/
def build (task : Task) (contract : Contract) (txs : List Transaction) : TaskReport :=
  let graph := contract.knownGraph
  let minDistance := graph.minDistance contract.distances
  { elapsed := match task.start, task.expiration with
      | some start, some stop => start.millisBetween stop
      | _, _ => 0
    contractName := contract.name
    coverage := graph.coverage task.executed
    coverageByTime := replay graph.coverage txs
    minDistance := minDistance task.executed
    minDistanceByTime := replay minDistance txs
    transactions := txs.map .ofTransaction
    weaknesses := .ofList (txs.flatMap (·.weaknesses.toList)) }

end TaskReport

/-- A number as it stands in a written report. Documents have no form for the infinities and for
what is not a number, so that nothing stands in their place. -/
def writtenNumber? (x : Float) : Option Float := if x.isFinite then some x else none

end ContractFuzz
