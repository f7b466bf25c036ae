import ContractFuzz.Campaign.Listening
import ContractFuzz.Proofs.Campaign.Perform
import ContractFuzz.Proofs.Store
/-!
# Ledgers and their moves

The history of campaigns is about their records, the events published so far and the numbers handed
out: their ledger. Whatever is done to campaigns changes the ledger by moves, and the moves say all
that can happen to it.

## Main definitions

* `Ledger`, `Campaign.ledger` : the part of the state that its history is about.
* `Ledger.Registrable` : what a new task and its contract have to be like.
* `Ledger.Move` : the moves, each with the conditions under which it is made.
-/

namespace ContractFuzz

/-- Records, published events and numbers. -/
@[ext] structure Ledger where
  /-- The records. -/
  store : Store
  /-- All events that were published for each listener. -/
  published : Listener → List TaskId
  /-- The number of the next function. -/
  nextFunction : Nat
  /-- The number of the next transaction. -/
  nextTransaction : Nat

namespace Ledger

/-- The ledger before anything has happened. -/
def empty : Ledger := ⟨.empty, fun _ => [], 0, 0⟩

/-- An event is published. -/
def publish (g : Ledger) (l : Listener) (task : TaskId) : Ledger :=
  { g with published := fun k => if k = l then g.published k ++ [task] else g.published k }

theorem mem_published_publish {g : Ledger} {l k : Listener} {task id : TaskId} :
    id ∈ (g.publish l task).published k ↔ (k = l ∧ id = task) ∨ id ∈ g.published k := by
  change id ∈ (if k = l then g.published k ++ [task] else g.published k) ↔ _
  split
  · next h => simp [h, or_comm]
  · next h => simp [h]

end Ledger

variable {ω : Type}

/-- The ledger of the campaigns. -/
def Campaign.ledger (c : Campaign ω) : Ledger where
  store := c.store
  published l := (c.topic l).published
  nextFunction := c.nextFunction
  nextTransaction := c.nextTransaction

theorem Campaign.published_setTopic (c : Campaign ω) (l k : Listener) (t : Topic TaskId) :
    ((c.setTopic l t).topic k).published =
      if k = l then t.published else (c.topic k).published := by
  cases l <;> cases k <;> rfl

/-- The campaigns after an event was published. -/
def Campaign.publish (c : Campaign ω) (l : Listener) (task : TaskId) : Campaign ω :=
  c.setTopic l ((c.topic l).publish task).2

theorem Campaign.ledger_publish (c : Campaign ω) (l : Listener) (task : TaskId) :
    (c.publish l task).ledger = c.ledger.publish l task := by
  refine Ledger.ext (by cases l <;> rfl) (funext fun k => ?_) (by cases l <;> rfl)
    (by cases l <;> rfl)
  change ((c.setTopic l ((c.topic l).publish task).2).topic k).published =
    if k = l then (c.topic k).published ++ [task] else (c.topic k).published
  rw [published_setTopic]
  split
  · next h => rw [h, Topic.published_publish]
  · rfl

/-- Receiving an event leaves the ledger as it is. -/
theorem Campaign.ledger_setTopic_receive (c : Campaign ω) (l : Listener) (subscriber : Nat) :
    (c.setTopic l ((c.topic l).receive subscriber).2).ledger = c.ledger := by
  refine Ledger.ext (by cases l <;> rfl) (funext fun k => ?_) (by cases l <;> rfl)
    (by cases l <;> rfl)
  change ((c.setTopic l ((c.topic l).receive subscriber).2).topic k).published =
    (c.topic k).published
  rw [published_setTopic, Topic.published_receive]
  split
  · next h => rw [h]
  · rfl

/-! ### What happens to records -/

/-- A task whose time is over. -/
def Task.finished (t : Task) : Task := { t with status := .done }

/-- A contract after a deployment of it. -/
def Contract.deployed (k : Contract) (d : Deployment) : Contract :=
  { k with address := some d.address, deployment := some d.hash }

/-- A deployed contract with an analysis of its code, unless it has one. -/
def Contract.enriched (k : Contract) (config : Config) (d : Deployment)
    (graph : ControlFlowGraph) : Contract :=
  ((k.deployed d).attachAnalysis graph (graph.distanceMap config.fuzzing.critical)).2

/-- The transaction of a deployment. -/
def Transaction.deployment (id : TransactionId) (task : TaskId) (constructor : FunctionId)
    (texts : List String) (now : Instant) (hash : String) : Transaction :=
  { Transaction.new id task constructor texts now with
    status := .done
    hash := some hash }

/-- A transaction that is not waited for any more. -/
def Transaction.expired (tx : Transaction) : Transaction := { tx with status := .done }

/-- A transaction with further weaknesses. -/
def Transaction.weakened (tx : Transaction) (new : SortedSet String) : Transaction :=
  { tx with weaknesses := tx.weaknesses.union new }

/-- Two versions of a transaction agree on its task and its execution. If it was done, it is. -/
structure Transaction.Agrees (old new : Transaction) : Prop where
  task : new.task = old.task
  executed : new.executed = old.executed
  distanceGain : new.distanceGain = old.distanceGain
  status : new.status ≠ .done → old.status ≠ .done

theorem Transaction.Agrees.refl (tx : Transaction) : tx.Agrees tx := ⟨rfl, rfl, rfl, fun h => h⟩

theorem Transaction.agrees_expired (tx : Transaction) : tx.Agrees tx.expired :=
  ⟨rfl, rfl, rfl, fun h => absurd rfl h⟩

theorem Transaction.agrees_weakened (tx : Transaction) (new : SortedSet String) :
    tx.Agrees (tx.weakened new) :=
  ⟨rfl, rfl, rfl, fun h => h⟩

namespace Ledger

/-- A task and a contract that may be registered: with new ids, not started and without executed
instructions. -/
structure Registrable (g : Ledger) (task : Task) (contract : Contract) : Prop where
  newTask : g.store.tasks.get? task.id = none
  newContract : g.store.contracts.get? contract.id = none
  created : task.status = .created
  unexecuted : task.executed = .empty

/-- The ledger with a further task, its contract and the functions of the contract. -/
def register (g : Ledger) (task : Task) (contract : Contract) (definition : AbiDefinition) :
    Ledger :=
  { g with
    store := ((g.store.createTask task).createContract
      { contract with task := task.id }).createFunctions
        (definition.functions contract.id g.nextFunction)
    nextFunction := g.nextFunction + (definition.methods.size + 1) }

/-- The ledger with other transactions. -/
def withTransactions (g : Ledger) (txs : List Transaction) : Ledger :=
  { g with store := { g.store with transactions := txs } }

/-- What can happen to a ledger. Registered tasks and contracts are among the accepted ones. -/
inductive Move (config : Config) (Accepted : Task → Contract → Prop) : Ledger → Ledger → Prop
  | register {g : Ledger} {task : Task} {contract : Contract} {definition : AbiDefinition}
      (new : g.Registrable task contract) (accepted : Accepted task contract)
      (hdefinition : contract.definition = .ok definition) :
      Move config Accepted g (g.register task contract definition)
  | start {g : Ledger} {task : Task} (now : Instant) (htask : g.store.getTask task.id = .ok task)
      (created : task.status = .created) :
      Move config Accepted g
        ({ g with store := g.store.createTask (task.started now) }.publish .deployer task.id)
  | finish {g : Ledger} {task : Task} {now : Instant}
      (htask : g.store.getTask task.id = .ok task) (running : task.isRunning = true)
      (expired : task.isExpired now = true) :
      Move config Accepted g
        ({ g with store := g.store.createTask task.finished }.publish .reporter
          task.id)
  | request {g : Ledger} {task : TaskId} {contract : Contract}
      (hcontract : g.store.contractOfTask task = .ok contract)
      (analyzed : contract.isAnalyzed = true) :
      Move config Accepted g (g.publish .fuzzer task)
  | expire {g : Ledger} (task : TaskId) (cutoff : Instant) :
      Move config Accepted g (g.withTransactions (g.store.transactions.map fun tx =>
        if tx.task == task && tx.isStale cutoff then tx.expired else tx))
  | deploy {g : Ledger} {task : Task} {contract : Contract} {constructor : ContractFunction}
      {definition : AbiDefinition} {source : Source} {values : List Value} {texts : List String}
      (now : Instant) (hash : String) (started : task.id ∈ g.published .deployer)
      (htask : g.store.getTask task.id = .ok task)
      (hcontract : g.store.contractOfTask task.id = .ok contract)
      (hconstructor : g.store.constructorOf contract.id = .ok constructor)
      (hdefinition : contract.definition = .ok definition)
      (drawn : ((constructorArguments task definition.constructorInputs).run source).1 =
        .ok (values, texts)) :
      Move config Accepted g
        { g.withTransactions (g.store.transactions ++
            [.deployment ⟨g.nextTransaction⟩ task.id constructor.id texts now hash]) with
          nextTransaction := g.nextTransaction + 1 }
  | enrich {g : Ledger} {contract : Contract} {d : Deployment} {graph : ControlFlowGraph}
      {tx : Transaction} (hcontract : g.store.getContract contract.id = .ok contract)
      (hgraph : contract.isAnalyzed = true ∨
        ∃ blocks, ControlFlowGraph.ofDecompiled blocks = .ok graph)
      (last : g.store.transactions.getLast? = some tx) (htask : tx.task = contract.task)
      (hashed : tx.hash = some d.hash) :
      Move config Accepted g
        { g with store := g.store.createContract (contract.enriched config d graph) }
  | submit {g : Ledger} {task : Task} {contract : Contract} {definition : AbiDefinition}
      {function : ContractFunction} {method : AbiMethod} {source : Source}
      {generated : List (Seed × List Value)} (clock : Nat → Instant) (outcome : BatchOutcome)
      (requested : task.id ∈ g.published .fuzzer)
      (htask : g.store.getTask task.id = .ok task) (running : task.isRunning = true)
      (hcontract : g.store.contractOfTask task.id = .ok contract)
      (hdefinition : contract.definition = .ok definition)
      (candidate : function ∈ candidates (g.store.functionsOf contract.id))
      (hmethod : definition.method function.name = .ok method)
      (drawn : ((generateBatch config.fuzzing task.strategy function.id method.inputs
        g.store).run source).1 = .ok generated) :
      Move config Accepted g
        { g.withTransactions (g.store.transactions ++
            (newBatch g.nextTransaction task.id function.id clock (generated.map (·.1))).map
              outcome.apply) with
          nextTransaction := g.nextTransaction + generated.length }
  | record {g : Ledger} {before after : List Transaction} {tx : Transaction} {hash : String}
      {task : Task} {contract : Contract} (executed : PcSet)
      (split : g.store.transactions = before ++ tx :: after)
      (hashed : tx.hash = some hash) (first : ∀ tx' ∈ before, tx'.hash ≠ some hash)
      (unrecorded : tx.status ≠ .done) (htask : g.store.getTask tx.task = .ok task)
      (hcontract : g.store.contractOfTask tx.task = .ok contract) :
      Move config Accepted g
        { g with store := { g.store with
            transactions := before ++
              tx.recorded config.fuzzing.critical contract task.executed executed :: after
            tasks := g.store.tasks.insert tx.task (task.mergeExecuted executed) } }
  | weaken {g : Ledger} {before after : List Transaction} {tx : Transaction} {hash : String}
      (new : SortedSet String) (split : g.store.transactions = before ++ tx :: after)
      (hashed : tx.hash = some hash) (first : ∀ tx' ∈ before, tx'.hash ≠ some hash) :
      Move config Accepted g (g.withTransactions (before ++ tx.weakened new :: after))

/-! ### Versions of transactions -/

/-- Giving up on transactions agrees with what they executed. -/
theorem agrees_expire (txs : List Transaction) (p : Transaction → Bool) :
    List.Forall₂ Transaction.Agrees txs (txs.map fun tx => if p tx then tx.expired else tx) := by
  refine List.forall₂_map_right_iff.mpr (List.forall₂_same.mpr fun tx _ => ?_)
  split
  · exact tx.agrees_expired
  · exact .refl tx

/-- Further weaknesses agree with what transactions executed. -/
theorem agrees_weaken (before after : List Transaction) (tx : Transaction)
    (new : SortedSet String) :
    List.Forall₂ Transaction.Agrees (before ++ tx :: after)
      (before ++ tx.weakened new :: after) :=
  List.rel_append (List.forall₂_same.mpr fun tx _ => .refl tx)
    (.cons (tx.agrees_weakened new) (List.forall₂_same.mpr fun tx _ => .refl tx))

section Batch

variable {first : Nat} {task : TaskId} {function : FunctionId} {clock : Nat → Instant}
  {seeds : List Seed} {outcome : BatchOutcome} {tx : Transaction}

/-- Each transaction of a batch is a new one, which asks for one of the generated inputs. -/
theorem exists_of_mem_newBatch (h : tx ∈ newBatch first task function clock seeds) :
    ∃ number time, ∃ seed ∈ seeds, tx = .new ⟨number⟩ task function seed time := by
  obtain ⟨i, hi, rfl⟩ := List.mem_mapIdx.mp h
  exact ⟨first + i, clock i, seeds[i], List.getElem_mem hi, rfl⟩

/-- Each transaction of a batch is as the node's answer has left a new one. -/
theorem exists_of_mem_batch
    (h : tx ∈ (newBatch first task function clock seeds).map outcome.apply) :
    ∃ number time, ∃ seed ∈ seeds,
      tx = outcome.apply (.new ⟨number⟩ task function seed time) := by
  obtain ⟨created, hcreated, rfl⟩ := List.mem_map.mp h
  obtain ⟨number, time, seed, hseed, rfl⟩ := exists_of_mem_newBatch hcreated
  exact ⟨number, time, seed, hseed, rfl⟩

/-- The transactions of a batch have not executed anything. -/
theorem unexecuted_of_mem_batch
    (h : tx ∈ (newBatch first task function clock seeds).map outcome.apply) :
    tx.task = task ∧ tx.executed = .empty ∧ tx.distanceGain = 0 := by
  obtain ⟨number, time, seed, -, rfl⟩ := exists_of_mem_batch h
  rw [outcome.apply_eq]
  exact ⟨rfl, rfl, rfl⟩

end Batch

end Ledger

end ContractFuzz
