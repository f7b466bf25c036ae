import ContractFuzz.Failure
import ContractFuzz.Graph.ControlFlow
import ContractFuzz.Time.Instant
/-!
# Tasks

A task is a campaign against one contract for a limited time.

## Main definitions

* `Task`, `TaskStatus`.
* `Task.isExpired`, `Task.mergeExecuted`, `Task.started`.
-/

namespace ContractFuzz

/-- How far a task has come. -/
inductive TaskStatus where
  | created
  | running
  | done
deriving DecidableEq, Inhabited

/-- A campaign against one contract. -/
structure Task where
  /-- Its id. -/
  id : TaskId
  /-- The way its inputs are generated. -/
  strategy : Strategy
  /-- Arguments of the constructor, as texts; without any they are generated. -/
  arguments : List String
  /-- How far it has come. -/
  status : TaskStatus
  /-- How long it runs. -/
  duration : Duration
  /-- When it was started. -/
  start : Option Instant
  /-- When its time is over. -/
  expiration : Option Instant
  /-- All instructions that were executed for it. -/
  executed : PcSet

namespace Task

/-- Whether inputs are being generated for the task. -/
def isRunning (t : Task) : Bool := t.status == .running

/-- Whether the time of the task is over. -/
def isExpired (t : Task) (now : Instant) : Bool := t.expiration.any fun e => decide (e ≤ now)

/-- The task with further executed instructions. -/
def mergeExecuted (t : Task) (executed : PcSet) : Task :=
  { t with executed := t.executed.union executed }

/-- The task running from `now` until its duration has passed. -/
def started (t : Task) (now : Instant) : Task :=
  { t with status := .running, start := some now, expiration := some (now.deadline t.duration) }

end Task

end ContractFuzz
