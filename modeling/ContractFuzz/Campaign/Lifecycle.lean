import ContractFuzz.Campaign.Recording
/-!
# The life of a task

## Main definitions

* `registerTask`: a new task with its contract and the contract's functions.
* `startTask`: its time begins.
* `checkTasks`, `CheckOutcome`: a periodic look at all running tasks.
-/

namespace ContractFuzz

variable {ω : Type}

/-- Store a task with its contract and the functions that the contract's definition declares. -/
def registerTask (task : Task) (contract : Contract) : Activity ω TaskId := do
  let contract := { contract with task := task.id }
  let definition ← Activity.ofExcept contract.definition
  let first ← Activity.newFunctions (definition.methods.size + 1)
  Activity.change (·.createTask task)
  Activity.change (·.createContract contract)
  Activity.change (·.createFunctions (definition.functions contract.id first))
  return task.id

/-- Start a task that was not started yet. -/
def startTask (id : TaskId) (now : Instant) : Activity ω Unit := do
  let task ← Activity.query (·.getTask id)
  if task.status = .created then
    Activity.update (·.updateTask (task.started now))
    let _ ← Activity.publish .deployer id
  else
    Activity.warn .alreadyStarted

/-- What a look at all running tasks has led to. -/
structure CheckOutcome where
  /-- The tasks whose time was over. -/
  finished : List TaskId
  /-- The transactions whose execution is no longer waited for. -/
  timedOut : List TransactionId
  /-- The tasks for which new inputs were requested. -/
  redriven : List TaskId
deriving DecidableEq, Inhabited

namespace CheckOutcome

/-- The outcome of looking at no task. -/
def empty : CheckOutcome := ⟨[], [], []⟩

/-- The outcomes of looking at some tasks, then at others. -/
def append (a b : CheckOutcome) : CheckOutcome :=
  ⟨a.finished ++ b.finished, a.timedOut ++ b.timedOut, a.redriven ++ b.redriven⟩

end CheckOutcome

/-- Look at one running task: finish it when its time is over; else, unless it is still being
deployed, give up the transactions that have waited too long, and request new inputs when nothing
is left to wait for. -/
def checkTask (e : Engine ω) (now : Instant) (task : Task) : Activity ω CheckOutcome := do
  if task.isExpired now then
    let _ ← Activity.commit (·.updateTaskStatus task.id .done)
    let _ ← Activity.publish .reporter task.id
    return ⟨[task.id], [], []⟩
  let contract ← Activity.query (·.contractOfTask task.id)
  if !contract.isAnalyzed then return .empty
  let timedOut ← expireStale task.id (now.cutoff e.config.timeout)
  if ← Activity.view (·.hasPending task.id) then return ⟨[], timedOut, []⟩
  let _ ← Activity.publish .fuzzer task.id
  return ⟨[], timedOut, [task.id]⟩

/-- Look at some running tasks, one after the other. -/
def checkEach (e : Engine ω) (now : Instant) : List Task → Activity ω CheckOutcome
  | [] => return .empty
  | task :: rest => do
    let outcome ← checkTask e now task
    return outcome.append (← checkEach e now rest)

/-- Look at all running tasks. -/
def checkTasks (e : Engine ω) (now : Instant) : Activity ω CheckOutcome := do
  checkEach e now (← Activity.view (·.runningTasks))

end ContractFuzz
