import ContractFuzz.Campaign.Listening
import ContractFuzz.Simulation.Wallet
/-!
# A simulated world

Node, decompiler and report sink that answer by plan, for campaigns without a chain. The node keeps
the calls it has accepted until they are mined, that is, executed on the sample wallet.

## Main definitions

* `Reply`: a planned answer of the node to one call.
* `World`, `World.services`: the state of the simulation, and its services.
* `mine`: execute all calls that were accepted, and record what was observed.
* `takeOver`: put transactions of an earlier campaign among those of a task.
-/

namespace ContractFuzz

/-- Where the hash of an accepted call comes from. -/
inductive HashChoice where
  /-- The next hash of the node. -/
  | next
  /-- A hash given in advance. -/
  | given (hash : String)

/-- A planned answer to one call. -/
structure Reply where
  /-- The hash, if the call is accepted. -/
  hash : Option HashChoice
  /-- The reason why it is not. -/
  error : Option String

/-- The answer to calls for which nothing is planned: they are accepted. -/
def Reply.accepted : Reply := ⟨some .next, none⟩

/-- A call that waits to be mined. -/
structure AcceptedCall where
  hash : String
  function : String
  args : List Value

/-- Something that node or decompiler were asked for. -/
inductive Request where
  | deploy (contract : String) (args : List Value)
  | decompile (contract : String)
  | call (contract function : String) (inputs : List (List Value))

/-- The state of the simulated world. -/
structure World where
  /-- The answers to the calls of a batch, over and over. -/
  plan : List Reply
  /-- Why deployments fail, if they do. -/
  deployError : Option String
  /-- What the decompiler recovers, or why it fails. -/
  blocks : Except String (List DecompiledBlock)
  /-- Why reports cannot be delivered, if so. -/
  sinkError : Option String
  /-- The present time, at which the clock stands still until it is set. -/
  now : Instant
  /-- The number of hashes that were given out. -/
  hashes : Nat
  /-- The accepted calls that were not mined yet. -/
  accepted : List AcceptedCall
  /-- What was asked for, in order. -/
  requests : List Request
  /-- The delivered reports, in order. -/
  reports : List TaskReport

namespace World

/-- The world before any request: everything succeeds, and the decompiler recovers no block. -/
def initial : World := ⟨[], none, .ok [], none, .epoch, 0, [], [], []⟩

instance : Inhabited World := ⟨initial⟩

/-- Note a request. -/
def note (w : World) (r : Request) : World := { w with requests := w.requests ++ [r] }

/-- The next hash of the node. -/
def takeHash (w : World) : String × World :=
  ("h" ++ toString w.hashes, { w with hashes := w.hashes + 1 })

/-- Deploy a contract. -/
def deploy (contract : Contract) (args : List Value) (w : World) :
    Except String Deployment × World :=
  let w := w.note (.deploy contract.name args)
  match w.deployError with
  | some reason => (.error reason, w)
  | none =>
    let (hash, w) := w.takeHash
    (.ok ⟨"at-" ++ hash, hash⟩, w)

/-- The answer to one call of a batch: its hash, if it is accepted. -/
def answer (function : String) (reply : Reply) (args : List Value) (w : World) :
    Option String × World :=
  let accept (hash : String) (w : World) : Option String × World :=
    (some hash, { w with accepted := w.accepted ++ [⟨hash, function, args⟩] })
  match reply.hash with
  | none => (none, w)
  | some (.given hash) => accept hash w
  | some .next =>
    let (hash, w) := w.takeHash
    accept hash w

/-- The planned reply to the call at a place of its batch. -/
def replyTo (w : World) (place : Nat) : Reply :=
  (w.plan[place % w.plan.length]?).getD .accepted

/-- The answers to the calls of a batch from a place on, with the ids of their transactions. -/
def answers (function : String) :
    Nat → List (TransactionId × List Value) → World →
    List (TransactionId × Option String × Option String) × World
  | _, [], w => ([], w)
  | place, (id, args) :: calls, w =>
    let reply := w.replyTo place
    let (hash, w) := w.answer function reply args
    let (rest, w) := answers function (place + 1) calls w
    ((id, hash, reply.error) :: rest, w)

/-- Submit a batch of calls. -/
def submit (contract : Contract) (function : String) (calls : List (TransactionId × List Value))
    (w : World) : BatchOutcome × World :=
  let w := w.note (.call contract.name function (calls.map (·.2)))
  let (given, w) := answers function 0 calls w
  (⟨fun id => (given.lookup id).bind (·.1), fun id => (given.lookup id).bind (·.2)⟩, w)

/-- Decompile a contract. -/
def decompile (contract : Contract) (w : World) : Except String (List DecompiledBlock) × World :=
  (w.blocks, w.note (.decompile contract.name))

/-- Take delivery of a report. -/
def takeReport (report : TaskReport) (w : World) : Except String Unit × World :=
  match w.sinkError with
  | some reason => (.error reason, w)
  | none => (.ok (), { w with reports := w.reports ++ [report] })

/-- The services of the simulated world. -/
def services : Services World := ⟨deploy, submit, decompile, takeReport, fun w _ => w.now⟩

end World

/-- Execute one accepted call and record what was observed: the transaction, and its new
weaknesses. -/
def mineCall (e : Engine World) (call : AcceptedCall) :
    Steps (Campaign World) (Except Failure Transaction × Except Failure (SortedSet String)) := do
  let execution := Wallet.execute call.function call.args
  let recorded ← (recordExecution e call.hash execution.executed).run
  let new ← (recordWeaknesses e call.hash (.ofEvents execution.events)).run
  return (recorded, new)

/-- Execute all accepted calls. -/
def mine (e : Engine World) :
    Steps (Campaign World)
      (List (Except Failure Transaction × Except Failure (SortedSet String))) := do
  let calls ← Steps.atomically fun c =>
    (c.world.accepted, { c with world := { c.world with accepted := [] } })
  calls.mapM (mineCall e)

/-- Put a transaction of an earlier campaign among those of a task, as a call of the function with
the given name. -/
def takeOver {ω : Type} (task : TaskId) (tx : Transaction) (function : String) :
    Activity ω Unit := do
  let contract ← Activity.query (·.contractOfTask task)
  let functions ← Activity.view (·.functionsOf contract.id)
  match functions.find? (·.name == function) with
  | some f =>
    let number ← Activity.newTransactions 1
    Activity.change (·.createTransaction { tx with id := ⟨number⟩, task, function := f.id })
  | none => return

end ContractFuzz
