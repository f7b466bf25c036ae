import ContractFuzz.Record.Contract
import ContractFuzz.Record.Task
import ContractFuzz.Record.Transaction
/-!
# The store

The records of all campaigns, kept in memory. Every operation is one atomic change or one look at
the whole; a failing one changes nothing.

## Main definitions

* `Store`: tables of tasks, contracts, functions and transactions.
* Queries (`Store.getTask`, …) and changes (`Store.updateTask`, …).
* `Store.recentDone`: the newest finished transactions of a function.
* `Store.resolve`: a function with its contract and parameters.
-/

namespace ContractFuzz

/-- The records of all campaigns. -/
structure Store where
  /-- Tasks by id. -/
  tasks : SortedMap TaskId Task
  /-- Contracts by id. -/
  contracts : SortedMap ContractId Contract
  /-- Functions in the order in which they were created. -/
  functions : List ContractFunction
  /-- Transactions in the order in which they were created. -/
  transactions : List Transaction

/-- A function with its contract and parameters. -/
structure FunctionTarget where
  /-- The function. -/
  function : FunctionId
  /-- Its contract. -/
  contract : Contract
  /-- Its parameters. -/
  inputs : List AbiParam

/-- The last transaction of that id. -/
def lastWithId? (id : TransactionId) : List Transaction → Option Transaction
  | [] => none
  | tx :: txs =>
    match lastWithId? id txs with
    | some found => some found
    | none => if tx.id = id then some tx else none

/-- Replace the last transaction that has the id of `new`. -/
def replaceLast (new : Transaction) : List Transaction → List Transaction
  | [] => []
  | tx :: txs =>
    if txs.any (·.id == new.id) then tx :: replaceLast new txs
    else if tx.id = new.id then new :: txs
    else tx :: txs

/-- A query's result, or the failure that says what is missing. -/
def orMissing {α : Type} (what : MissingRecord) : Option α → Except Failure α
  | some a => .ok a
  | none => .error (.notFound what)

namespace Store

/-- The store without records. -/
def empty : Store := ⟨.empty, .empty, [], []⟩

instance : Inhabited Store := ⟨empty⟩

/-! ### Tasks -/

/-- Add a task, or replace the one with its id. -/
def createTask (t : Task) (s : Store) : Store := { s with tasks := s.tasks.insert t.id t }

/-- The task of that id. -/
def getTask (id : TaskId) (s : Store) : Except Failure Task :=
  orMissing (.task id) (s.tasks.get? id)

/-- Replace a task by another version of it. -/
def updateTask (t : Task) (s : Store) : Except Failure Store := do
  let _ ← s.getTask t.id
  return s.createTask t

/-- Change the status of a task and nothing else of it. -/
def updateTaskStatus (id : TaskId) (status : TaskStatus) (s : Store) :
    Except Failure (Task × Store) := do
  let t := { ← s.getTask id with status }
  return (t, { s with tasks := s.tasks.insert id t })

/-- Add to the executed instructions of a task and change nothing else of it. -/
def mergeExecuted (id : TaskId) (executed : PcSet) (s : Store) :
    Except Failure (Task × Store) := do
  let t := (← s.getTask id).mergeExecuted executed
  return (t, { s with tasks := s.tasks.insert id t })

/-- The tasks that are running, by id. -/
def runningTasks (s : Store) : List Task := s.tasks.values.filter Task.isRunning

/-! ### Contracts and functions -/

/-- Add a contract, or replace the one with its id. -/
def createContract (c : Contract) (s : Store) : Store :=
  { s with contracts := s.contracts.insert c.id c }

/-- The contract of that id. -/
def getContract (id : ContractId) (s : Store) : Except Failure Contract :=
  orMissing (.contract id) (s.contracts.get? id)

/-- Replace a contract by another version of it. -/
def updateContract (c : Contract) (s : Store) : Except Failure Store := do
  let _ ← s.getContract c.id
  return s.createContract c

/-- The first contract, by id, of a task. -/
def contractOfTask (task : TaskId) (s : Store) : Except Failure Contract :=
  orMissing (.contractOfTask task) (s.contracts.values.find? (·.task == task))

/-- Add functions. -/
def createFunctions (fs : List ContractFunction) (s : Store) : Store :=
  { s with functions := s.functions ++ fs }

/-- The function of that id. -/
def getFunction (id : FunctionId) (s : Store) : Except Failure ContractFunction :=
  orMissing (.function id) (s.functions.find? (·.id == id))

/-- The functions of a contract. -/
def functionsOf (contract : ContractId) (s : Store) : List ContractFunction :=
  s.functions.filter (·.contract == contract)

/-- The constructor of a contract. -/
def constructorOf (contract : ContractId) (s : Store) : Except Failure ContractFunction :=
  orMissing (.constructorOf contract)
    (s.functions.find? fun f => f.contract == contract && f.isConstructor)

/-! ### Transactions -/

/-- Add a transaction. -/
def createTransaction (tx : Transaction) (s : Store) : Store :=
  { s with transactions := s.transactions ++ [tx] }

/-- Add transactions, in order. -/
def createTransactions (txs : List Transaction) (s : Store) : Store :=
  { s with transactions := s.transactions ++ txs }

/-- The transaction of that id; of several the last one. -/
def getTransaction (id : TransactionId) (s : Store) : Except Failure Transaction :=
  orMissing (.transaction id) (lastWithId? id s.transactions)

/-- Replace a transaction by another version of it. -/
def updateTransaction (tx : Transaction) (s : Store) : Except Failure Store := do
  let _ ← s.getTransaction tx.id
  return { s with transactions := replaceLast tx s.transactions }

/-- Replace transactions by other versions of them, in order, or none if one is missing. -/
def updateTransactions (txs : List Transaction) (s : Store) : Except Failure Store := do
  txs.forM fun tx => do let _ ← s.getTransaction tx.id
  return { s with transactions := txs.foldl (fun all tx => replaceLast tx all) s.transactions }

/-- The transactions of a task. -/
def transactionsOf (task : TaskId) (s : Store) : List Transaction :=
  s.transactions.filter (·.task == task)

/-- The first transaction with that hash. -/
def transactionWithHash (hash : String) (s : Store) : Except Failure Transaction :=
  orMissing (.transactionWithHash hash) (s.transactions.find? (·.hash == some hash))

/-- Whether an outcome of a task's transactions is still open. -/
def hasPending (task : TaskId) (s : Store) : Bool :=
  (s.transactionsOf task).any Transaction.isPending

/-- The newest finished transactions of a function, at most `limit`. Of two with the same
timestamp the one created later comes first. -/
def recentDone (function : FunctionId) (limit : Nat) (s : Store) : List Transaction :=
  let done := s.transactions.filter fun tx => tx.function == function && tx.status == .done
  (done.reverse.mergeSort fun a b => decide (b.timestamp ≤ a.timestamp)).take limit

/-! ### Targets -/

/-- A function with its contract and parameters. -/
def resolve (id : FunctionId) (s : Store) : Except Failure FunctionTarget := do
  let f ← s.getFunction id
  let c ← s.getContract f.contract
  return ⟨id, c, ← c.inputsOf f⟩

end Store

end ContractFuzz
