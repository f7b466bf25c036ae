import ContractFuzz.Campaign.State
/-!
# Recording of executions

What the node observed while it executed transactions: the instructions they ran through, and
events that may reveal weaknesses. Whoever changes the outcome of a transaction holds the lock.

## Main definitions

* `Transaction.recorded`: a transaction with its outcome.
* `recordExecution`, `expireStale`, `recordWeaknesses`.
-/

namespace ContractFuzz

variable {ω : Type}

namespace Transaction

/-- The transaction with the outcome of its execution: the instructions it ran through, the
critical ones among them, and what they add to the instructions executed before. -/
def recorded (tx : Transaction) (critical : List String) (contract : Contract)
    (before executed : PcSet) : Transaction :=
  let graph := contract.knownGraph
  let after := before.union executed
  let distance := graph.minDistance contract.distances
  { tx with
    status := .done
    executed := executed
    hits := (executed.filter fun pc => (graph.opcode? pc).any (isCritical critical)).size
    coverageGain := graph.coverage after - graph.coverage before
    distanceGain := contract.distances.delta (distance before) (distance after) }

/-- Whether a submitted transaction that was created until `cutoff` waits for its execution. -/
def isStale (tx : Transaction) (cutoff : Instant) : Bool :=
  tx.status == .running && decide (tx.timestamp ≤ cutoff)

end Transaction

/-- Record the execution of the transaction with a hash, unless that has been done, and ask for
new inputs when it was the last one that its running task waited for. -/
def recordExecution (e : Engine ω) (hash : String) (executed : PcSet) : Activity ω Transaction :=
  Activity.exclusively do
    let tx ← Activity.query (·.transactionWithHash hash)
    if tx.status = .done then return tx
    let before := (← Activity.query (·.getTask tx.task)).executed
    let contract ← Activity.query (·.contractOfTask tx.task)
    let tx := tx.recorded e.config.fuzzing.critical contract before executed
    Activity.update (·.updateTransaction tx)
    let task ← Activity.commit (·.mergeExecuted tx.task executed)
    if task.isRunning then
      if !(← Activity.view (·.hasPending task.id)) then
        let _ ← Activity.publish .fuzzer task.id
    return tx

/-- Give up waiting for the transactions of a task that were created until `cutoff`: they are done
without having executed anything. The answer is their ids. -/
def expireStale (task : TaskId) (cutoff : Instant) : Activity ω (List TransactionId) :=
  Activity.exclusively do
    let stale := (← Activity.view (·.transactionsOf task)).filter (·.isStale cutoff)
    if stale.isEmpty then return []
    Activity.update (·.updateTransactions
      (stale.map fun tx => { tx with status := TransactionStatus.done }))
    return stale.map (·.id)

/-- Add to the transaction with a hash the weaknesses that a snapshot reveals. The answer is those
that it did not have. -/
def recordWeaknesses (e : Engine ω) (hash : String) (snapshot : Snapshot) :
    Activity ω (SortedSet String) :=
  Activity.exclusively do
    let tx ← Activity.query (·.transactionWithHash hash)
    let new := (detectWeaknesses e.config.oracles snapshot).diff tx.weaknesses
    if !new.isEmpty then
      Activity.update (·.updateTransaction { tx with weaknesses := tx.weaknesses.union new })
    return new

end ContractFuzz
