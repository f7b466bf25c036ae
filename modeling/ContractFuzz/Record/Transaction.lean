import ContractFuzz.RecordId
import ContractFuzz.Graph.ControlFlow
import ContractFuzz.Time.Instant
/-!
# Transactions

A call that was generated, from its creation to its recorded execution.

## Main definitions

* `Transaction`, `TransactionStatus`.
* `Transaction.new`: a call that was not submitted yet.
-/

namespace ContractFuzz

/-- How far a transaction has come. -/
inductive TransactionStatus where
  | created
  | running
  | done
  | sendError
deriving DecidableEq, Inhabited

/-- Whether the outcome of the transaction is still open. -/
def TransactionStatus.isPending : TransactionStatus → Bool
  | created => true
  | running => true
  | done => false
  | sendError => false

/-- A generated call. -/
structure Transaction where
  /-- Its id. -/
  id : TransactionId
  /-- The task it was generated for. -/
  task : TaskId
  /-- The function it calls. -/
  function : FunctionId
  /-- The arguments, as texts. -/
  inputs : List String
  /-- How far it has come. -/
  status : TransactionStatus
  /-- The hash that the node gave it. -/
  hash : Option String
  /-- The instructions that its execution ran through. -/
  executed : PcSet
  /-- The weaknesses that its execution revealed. -/
  weaknesses : SortedSet String
  /-- The coverage that it added to that of its task. -/
  coverageGain : Float
  /-- The hops by which it brought its task closer to a critical instruction. -/
  distanceGain : Nat
  /-- The number of critical instructions it executed. -/
  hits : Nat
  /-- When it was created. -/
  timestamp : Instant

namespace Transaction

/-- A call that was not submitted yet. -/
def new (id : TransactionId) (task : TaskId) (function : FunctionId) (inputs : List String)
    (timestamp : Instant) : Transaction :=
  ⟨id, task, function, inputs, .created, none, .empty, .empty, 0, 0, 0, timestamp⟩

/-- Whether the outcome is still open. -/
def isPending (tx : Transaction) : Bool := tx.status.isPending

end Transaction

end ContractFuzz
