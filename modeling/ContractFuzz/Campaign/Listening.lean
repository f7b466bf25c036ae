import ContractFuzz.Campaign.Lifecycle
/-!
# Handling of events

What the listeners do about the events on their topics. An event whose handling fails is given up.

## Main definitions

* `deployTask`: deploy and analyze the contract of a started task.
* `submitInputs`: generate a batch of transactions and submit it with `submitBatch`.
* `reportTask`: report on a finished task.
* `deliver`, `settle`: the next event of a listener, and all events until none is left.
-/

namespace ContractFuzz

variable {ω : Type}

/-! ### Deployment -/

/-- A random value of a parameter, with its text. -/
def generateArgument (p : AbiParam) : TryDraw (Value × String) := do
  let type ← TryDraw.ofExcept (AbiType.named p.type)
  let a ← TryDraw.draw (Argument.fresh type).generate
  return (a.value, a.serialized)

/-- The constructor arguments of a task, as values and as texts: those it was given, or random
ones. -/
def constructorArguments (task : Task) (inputs : List AbiParam) :
    TryDraw (List Value × List String) :=
  if task.arguments.isEmpty then do
    return (← inputs.mapM generateArgument).unzip
  else do
    return (← TryDraw.ofExcept (deserializeAll inputs task.arguments), task.arguments)

/-- The contract with an analysis of its code, unless it has one. -/
def analyze (e : Engine ω) (contract : Contract) : Activity ω Contract :=
  if contract.isAnalyzed then return contract
  else do
    let blocks ← Activity.external .decompiler (e.services.decompile contract)
    let graph ← Activity.ofExcept (ControlFlowGraph.ofDecompiled blocks)
    return (contract.attachAnalysis graph (graph.distanceMap e.config.fuzzing.critical)).2

/-- Deploy the contract of a task, record the deployment, analyze the contract, and request the
first inputs. -/
def deployTask (e : Engine ω) (id : TaskId) : Activity ω Unit := do
  let task ← Activity.query (·.getTask id)
  let contract ← Activity.query (·.contractOfTask task.id)
  let constructor ← Activity.query (·.constructorOf contract.id)
  let inputs := (← Activity.ofExcept contract.definition).constructorInputs
  let (values, texts) ← Activity.drawAsDeployer (constructorArguments task inputs)
  let deployment ← Activity.external .chainClient (e.services.deploy contract values)
  let contract := { contract with
    address := some deployment.address
    deployment := some deployment.hash }
  let now ← Activity.now e
  let number ← Activity.newTransactions 1
  let tx := Transaction.new ⟨number⟩ task.id constructor.id texts now
  Activity.change (·.createTransaction { tx with status := .done, hash := some deployment.hash })
  let contract ← analyze e contract
  Activity.update (·.updateContract contract)
  let _ ← Activity.publish .fuzzer task.id

/-! ### Submission -/

/-- One generated input: its texts, and the values that these stand for. -/
def generateOne (config : FuzzingConfig) (store : Store) (strategy : Strategy)
    (function : FunctionId) (inputs : List AbiParam) : TryDraw (Seed × List Value) := do
  let generated ← generateInput config store strategy function
  let texts ← TryDraw.ofExcept (serializeAll inputs generated)
  return (texts, ← TryDraw.ofExcept (deserializeAll inputs texts))

/-- As many generated inputs as a batch has. -/
def generateBatch (config : FuzzingConfig) (strategy : Strategy) (function : FunctionId)
    (inputs : List AbiParam) (store : Store) : TryDraw (List (Seed × List Value)) := do
  TryDraw.ofExcept (config.require strategy)
  (List.replicate config.batchSize ()).mapM fun _ =>
    generateOne config store strategy function inputs

namespace BatchOutcome

/-- A transaction after the node has answered: it is running if it has a hash. -/
def apply (o : BatchOutcome) (tx : Transaction) : Transaction :=
  match o.hash? tx.id with
  | some hash => { tx with status := .running, hash := some hash }
  | none => { tx with status := .sendError }

/-- What the log says about a transaction that the node did not accept. -/
def warning? (o : BatchOutcome) (function : String) (tx : Transaction) : Option Warning :=
  match o.hash? tx.id with
  | some _ => none
  | none => some (.sendFailed function ((o.error? tx.id).getD "no result reported"))

/-- The node's answer decides on the status and the hash of a transaction, and on nothing else. -/
theorem apply_eq (o : BatchOutcome) (tx : Transaction) :
    o.apply tx = { tx with status := (o.apply tx).status, hash := (o.apply tx).hash } := by
  unfold apply
  split <;> rfl

end BatchOutcome

/-- The transactions of generated inputs, numbered from `first` on. The clock is looked at anew for
each of them. -/
def newBatch (first : Nat) (task : TaskId) (function : FunctionId) (clock : Nat → Instant)
    (inputs : List Seed) : List Transaction :=
  inputs.mapIdx fun i seed => .new ⟨first + i⟩ task function seed (clock i)

/-- Store the transactions of generated inputs, submit them together, and store what the node's
answer makes of each. -/
def submitBatch (e : Engine ω) (contract : Contract) (task : TaskId) (function : ContractFunction)
    (clock : Nat → Instant) (generated : List (Seed × List Value)) : Activity ω Unit := do
  let first ← Activity.newTransactions generated.length
  let txs := newBatch first task function.id clock (generated.map (·.1))
  Activity.change (·.createTransactions txs)
  let calls := (txs.map (·.id)).zip (generated.map (·.2))
  let outcome ← Activity.atomically fun c =>
    let (outcome, world) := e.services.submit contract function.name calls c.world
    (outcome, { c with world })
  (txs.filterMap (outcome.warning? function.name)).forM Activity.warn
  Activity.update (·.updateTransactions (txs.map outcome.apply))

/-- A random function of a contract that can be called. -/
def pickFunction (contract : Contract) (functions : List ContractFunction) :
    TryDraw ContractFunction := do
  match ← TryDraw.draw (chooseFunction functions) with
  | some f => return f
  | none => throw (.noCandidateFunction contract.name)

/-- Generate a batch of transactions for a running task and submit them. -/
def submitInputs (e : Engine ω) (id : TaskId) : Activity ω Unit := do
  let task ← Activity.query (·.getTask id)
  if task.isRunning then
    let contract ← Activity.query (·.contractOfTask task.id)
    let definition ← Activity.ofExcept contract.definition
    let functions ← Activity.view (·.functionsOf contract.id)
    let function ← Activity.drawAsFuzzer fun _ => pickFunction contract functions
    let inputs := (← Activity.ofExcept (definition.method function.name)).inputs
    -- The looks at the clock from here on are those for the inputs, one for each.
    let clock ← Activity.clock e
    let generated ← Activity.drawAsFuzzer
      (generateBatch e.config.fuzzing task.strategy function.id inputs)
    submitBatch e contract task.id function clock generated

/-! ### Reporting -/

/-- Deliver the report on a task. -/
def reportTask (e : Engine ω) (id : TaskId) : Activity ω Unit := do
  let task ← Activity.query (·.getTask id)
  let contract ← Activity.query (·.contractOfTask task.id)
  let txs ← Activity.view (·.transactionsOf task.id)
  Activity.external .reportSink (e.services.deliver (.build task contract txs))

/-! ### Delivery -/

/-- What a listener does about an event. -/
def handle (e : Engine ω) : Listener → TaskId → Activity ω Unit
  | .deployer => deployTask e
  | .fuzzer => submitInputs e
  | .reporter => reportTask e

/-- Hand a listener its next event, if there is one. -/
def deliver (e : Engine ω) (l : Listener) : Steps (Campaign ω) Unit := do
  let next ← Steps.atomically fun c =>
    let (next, t) := (c.topic l).receive 0
    (next, c.setTopic l t)
  match next with
  | .event task =>
    match ← (handle e l task).run with
    | .ok () => return
    | .error failure => let _ ← (Activity.warn (.eventDropped l failure)).run
  | _ => return

/-- Hand a listener a number of events. -/
def deliverMany (e : Engine ω) (l : Listener) : Nat → Steps (Campaign ω) Unit
  | 0 => return
  | n + 1 => do
    deliver e l
    deliverMany e l n

/-- Hand a listener all events that it has still to handle. -/
def drain (e : Engine ω) (l : Listener) : Steps (Campaign ω) Unit := do
  deliverMany e l (← Steps.look fun c => (c.pending l).length)

/-- Whether the reporter was called before the fuzzer. Tasks are looked at in the order of their
ids, so this is seen from the first events that wait. -/
def Campaign.reporterFirst (c : Campaign ω) : Bool :=
  match c.pending .reporter, c.pending .fuzzer with
  | finished :: _, requested :: _ => finished.number < requested.number
  | _, _ => false

/-- Let the listeners handle all events until none is left. Deployments lead to requests; what
fuzzer and reporter do leads to no further events. -/
def settle (e : Engine ω) : Steps (Campaign ω) Unit := do
  drain e .deployer
  if ← Steps.look Campaign.reporterFirst then
    drain e .reporter
    drain e .fuzzer
  else
    drain e .fuzzer
    drain e .reporter

end ContractFuzz
