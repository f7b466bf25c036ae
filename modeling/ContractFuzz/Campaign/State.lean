import ContractFuzz.Report
import ContractFuzz.Seed.Generation
import ContractFuzz.Steps
import ContractFuzz.Topic
/-!
# The state of campaigns

All campaigns of one engine share a store, the topics on which its listeners wait, the listeners'
random sources, and the world outside: node, decompiler and report sink. Everything that happens
is an activity on this state.

## Main definitions

* `Services`, `Engine`: how the world is reached, and what campaigns are configured with.
* `Listener`, `Warning`: who handles events, and what is worth a record in the log.
* `Campaign`: the state. `Campaign.start` is the first one.
* `Activity`: an activity that may fail, with its elementary steps.
-/

namespace ContractFuzz

/-- The answer of a node to a deployment. -/
structure Deployment where
  /-- Where the contract is. -/
  address : String
  /-- The hash of the deploying transaction. -/
  hash : String

/-- The answer of a node to a batch of calls: for each transaction a hash, a reason why there is
none, both, or neither. -/
structure BatchOutcome where
  /-- The hashes of accepted transactions. -/
  hash? : TransactionId → Option String
  /-- The reasons why others were not accepted. -/
  error? : TransactionId → Option String

/-- How the world outside, whose states have the type `ω`, is reached. -/
structure Services (ω : Type) where
  /-- Deploy a contract with constructor arguments. -/
  deploy : Contract → List Value → ω → Except String Deployment × ω
  /-- Call a function of a contract once for every transaction. -/
  submit : Contract → String → List (TransactionId × List Value) → ω → BatchOutcome × ω
  /-- Recover the blocks of a contract. -/
  decompile : Contract → ω → Except String (List DecompiledBlock) × ω
  /-- Deliver a report. -/
  deliver : TaskReport → ω → Except String Unit × ω
  /-- What the clock shows from a state of the world on, at the first look at it, the second one, and
  so forth. Nothing is said about how far it goes on from one look to the next. -/
  clock : ω → Nat → Instant

/-- What campaigns are run with. -/
structure Engine (ω : Type) where
  /-- The configuration. -/
  config : Config
  /-- The world outside. -/
  services : Services ω

/-- Those who handle events, each those of one topic. -/
inductive Listener where
  /-- Deploys and analyzes the contracts of started tasks. -/
  | deployer
  /-- Generates and submits inputs when they are requested. -/
  | fuzzer
  /-- Reports on finished tasks. -/
  | reporter
deriving DecidableEq

/-- The name of a listener in the log. -/
def Listener.name : Listener → String
  | deployer => "contract-deployer"
  | fuzzer => "fuzzer"
  | reporter => "reporter"

/-- A record of the log. -/
inductive Warning where
  /-- A transaction that calls this function was not accepted. -/
  | sendFailed (function reason : String)
  /-- A task was to be started a second time. -/
  | alreadyStarted
  /-- An event could not be handled and is given up. -/
  | eventDropped (listener : Listener) (failure : Failure)

/-- The state of all campaigns of an engine. -/
structure Campaign (ω : Type) where
  /-- The records. -/
  store : Store
  /-- The tasks that were started, for the deployer. -/
  starts : Topic TaskId
  /-- The tasks that need inputs, for the fuzzer. -/
  requests : Topic TaskId
  /-- The tasks that are finished, for the reporter. -/
  finishes : Topic TaskId
  /-- The random source of the deployer. -/
  deployerSource : Source
  /-- The random source of the fuzzer. -/
  fuzzerSource : Source
  /-- The number of the next function. -/
  nextFunction : Nat
  /-- The number of the next transaction. -/
  nextTransaction : Nat
  /-- The world outside. -/
  world : ω
  /-- The log, the oldest record first. -/
  log : List Warning

/-- An activity of campaigns that may fail. -/
abbrev Activity (ω α : Type) := ExceptT Failure (Steps (Campaign ω)) α

namespace Campaign

variable {ω : Type}

/-- The state before anything has happened: every listener waits on its topic. -/
def start (seed : UInt64) (world : ω) : Campaign ω where
  store := .empty
  starts := Topic.empty.subscribe.2
  requests := Topic.empty.subscribe.2
  finishes := Topic.empty.subscribe.2
  deployerSource := .ofSeed seed
  fuzzerSource := .ofSeed seed
  nextFunction := 0
  nextTransaction := 0
  world := world
  log := []

/-- The topic on which a listener waits. -/
def topic (c : Campaign ω) : Listener → Topic TaskId
  | .deployer => c.starts
  | .fuzzer => c.requests
  | .reporter => c.finishes

/-- Replace the topic on which a listener waits. -/
def setTopic (c : Campaign ω) (l : Listener) (t : Topic TaskId) : Campaign ω :=
  match l with
  | .deployer => { c with starts := t }
  | .fuzzer => { c with requests := t }
  | .reporter => { c with finishes := t }

/-- The events that a listener has still to handle. -/
def pending (c : Campaign ω) (l : Listener) : List TaskId := (c.topic l).pending 0

end Campaign

namespace Activity

variable {ω α : Type}

/-- A step that cannot fail. -/
def atomically (f : Campaign ω → α × Campaign ω) : Activity ω α :=
  ExceptT.lift (Steps.atomically f)

/-- A computation that does not touch the state. -/
def ofExcept (r : Except Failure α) : Activity ω α := ExceptT.mk (pure r)

/-- A look at the records. -/
def query (f : Store → Except Failure α) : Activity ω α :=
  ExceptT.mk (Steps.look fun c => f c.store)

/-- A look at the records that cannot fail. -/
def view (f : Store → α) : Activity ω α := ExceptT.lift (Steps.look fun c => f c.store)

/-- A change of the records that cannot fail. -/
def change (f : Store → Store) : Activity ω Unit :=
  ExceptT.lift (Steps.modify fun c => { c with store := f c.store })

/-- A change of the records with a result; if it fails they stay. -/
def commit (f : Store → Except Failure (α × Store)) : Activity ω α :=
  ExceptT.mk (Steps.atomically fun c =>
    match f c.store with
    | .ok (a, s) => (.ok a, { c with store := s })
    | .error e => (.error e, c))

/-- A change of the records; if it fails they stay. -/
def update (f : Store → Except Failure Store) : Activity ω Unit :=
  commit fun s => (f s).map fun s => ((), s)

/-- Publish an event about a task. The answer is the number of listeners that will get it. -/
def publish (l : Listener) (task : TaskId) : Activity ω Nat :=
  atomically fun c =>
    let (count, t) := (c.topic l).publish task
    (count, c.setTopic l t)

/-- Write a record to the log. -/
def warn (w : Warning) : Activity ω Unit :=
  ExceptT.lift (Steps.modify fun c => { c with log := c.log ++ [w] })

/-- What the clock shows from now on, one look at it after the other. -/
def clock (e : Engine ω) : Activity ω (Nat → Instant) :=
  ExceptT.lift (Steps.look fun c => e.services.clock c.world)

/-- The present time. -/
def now (e : Engine ω) : Activity ω Instant :=
  ExceptT.lift (Steps.look fun c => e.services.clock c.world 0)

/-- The numbers of as many new functions as asked for: the first of them. -/
def newFunctions (count : Nat) : Activity ω Nat :=
  atomically fun c => (c.nextFunction, { c with nextFunction := c.nextFunction + count })

/-- The numbers of as many new transactions as asked for: the first of them. -/
def newTransactions (count : Nat) : Activity ω Nat :=
  atomically fun c => (c.nextTransaction, { c with nextTransaction := c.nextTransaction + count })

/-- Ask a service, which may fail. -/
def external (service : ExternalService) (ask : ω → Except String α × ω) : Activity ω α :=
  ExceptT.mk (Steps.atomically fun c =>
    let (answer, world) := ask c.world
    (answer.mapError (.external service), { c with world }))

/-- Draw from the deployer's source. -/
def drawAsDeployer (d : TryDraw α) : Activity ω α :=
  ExceptT.mk (Steps.atomically fun c =>
    let (r, source) := d.run c.deployerSource
    (r, { c with deployerSource := source }))

/-- Look at the records and draw from the fuzzer's source. -/
def drawAsFuzzer (d : Store → TryDraw α) : Activity ω α :=
  ExceptT.mk (Steps.atomically fun c =>
    let (r, source) := (d c.store).run c.fuzzerSource
    (r, { c with fuzzerSource := source }))

/-- An activity that excludes all others of its kind, even if it fails. -/
def exclusively (p : Activity ω α) : Activity ω α := ExceptT.mk (Steps.exclusively p.run)

end Activity

end ContractFuzz
