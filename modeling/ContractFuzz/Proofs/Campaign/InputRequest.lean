import ContractFuzz.Proofs.Campaign.FittingHistory
import ContractFuzz.Proofs.Campaign.LatestDeployment
import ContractFuzz.Proofs.Campaign.ServiceCalls
/-!
# Requests for inputs are all or nothing

A request for inputs that fails has changed no record and asked the node for nothing, and neither
does a request for a task that is not running. Any other request adds a whole batch of transactions
for one function, submits the batch at once, and leaves every transaction of it with the outcome
that the node has decided on. Records that existed before stay as they were.

## Main definitions

* `Listener.serviceCalls` : the calls of services while an event is handled.
* `BatchOutcome.Decides` : a transaction has the outcome that the node decided on.
* `AnsweredBatch` : a batch of new transactions after the node's answer.
* `AllOrNothing` : what a request for inputs may lead to.

## Main results

* `perform_handle_noting` : with notes, a listener does the same and notes its calls.
* `Campaign.Later.request_allOrNothing` : every request is all or nothing.
-/

namespace ContractFuzz

open Activity

variable {ω : Type} {e : Engine ω} {c : Campaign ω}

/-! ### The calls of a listener -/

/-- The campaigns without the notes. -/
def Campaign.silent (c : Campaign (ω × List ServiceCall)) : Campaign ω :=
  { c with world := c.world.1 }

/-- The calls of services while an event is handled: what a listener adds to empty notes. -/
def Listener.serviceCalls (e : Engine ω) (l : Listener) (id : TaskId) (c : Campaign ω) :
    List ServiceCall :=
  ((handle e.noting l id).perform (c.noting [])).2.world.2

/-- In a world with notes a listener does what it does without, and its calls are noted. -/
theorem perform_handle_noting (l : Listener) (id : TaskId) (notes : List ServiceCall) :
    (handle e.noting l id).perform (c.noting notes) =
      (((handle e l id).perform c).1,
        ((handle e l id).perform c).2.noting (notes ++ l.serviceCalls e id c)) := by
  obtain ⟨new, -, hnoting⟩ := noted_handle (e := e) (c := c) l id
  have hcalls : l.serviceCalls e id c = new := congrArg (·.2.world.2) (hnoting [])
  rw [hcalls]
  exact hnoting notes

/-- What a listener does without notes is what it does with them, apart from the notes. -/
theorem perform_handle_silent (l : Listener) (id : TaskId) :
    (handle e l id).perform c = (((handle e.noting l id).perform (c.noting [])).1,
      ((handle e.noting l id).perform (c.noting [])).2.silent) := by
  rw [perform_handle_noting]
  rfl

/-! ### The function that is called -/

/-- Where any function accepts payments, the one that is chosen does. -/
theorem payable_of_mem_candidates {functions : List ContractFunction} {f : ContractFunction}
    (h : f ∈ candidates functions)
    (exists_payable : ∃ g ∈ functions, g.isConstructor = false ∧ g.payable = true) :
    f.payable = true := by
  obtain ⟨g, hg, hcallable, hpayable⟩ := exists_payable
  have mem : g ∈ (functions.filter (!·.isConstructor)).filter (·.payable) :=
    List.mem_filter.mpr ⟨List.mem_filter.mpr ⟨hg, (Bool.not_eq_true' _).mpr hcallable⟩, hpayable⟩
  have nonempty : ¬ ((functions.filter (!·.isConstructor)).filter (·.payable)).isEmpty = true :=
    fun hnil => List.ne_nil_of_mem mem (List.isEmpty_iff.mp hnil)
  unfold candidates at h
  dsimp only at h
  rw [if_neg nonempty] at h
  exact (List.mem_filter.mp h).2

/-! ### Batches that were answered -/

/-- The transaction runs under the hash that the node has given it, or it has none and was not
sent. -/
structure BatchOutcome.Decides (o : BatchOutcome) (tx : Transaction) : Prop where
  accepted : ∀ hash, o.hash? tx.id = some hash → tx.status = .running ∧ tx.hash = some hash
  refused : o.hash? tx.id = none → tx.status = .sendError ∧ tx.hash = none

theorem BatchOutcome.Decides.ne_created {o : BatchOutcome} {tx : Transaction} (h : o.Decides tx) :
    tx.status ≠ .created := by
  intro created
  cases hhash : o.hash? tx.id with
  | some hash => cases created.symm.trans (h.accepted hash hhash).1
  | none => cases created.symm.trans (h.refused hhash).1

/-- The answer to a transaction without a hash decides on it. -/
theorem BatchOutcome.decides_apply (o : BatchOutcome) {tx : Transaction} (h : tx.hash = none) :
    o.Decides (o.apply tx) := by
  have hid := (Ledger.apply_same o tx).1
  constructor
  · intro hash hhash
    rw [hid] at hhash
    unfold apply
    rw [hhash]
    exact ⟨rfl, rfl⟩
  · intro hhash
    rw [hid] at hhash
    unfold apply
    rw [hhash]
    exact ⟨rfl, h⟩

/-- The transactions of `batch` are new. There are as many as a batch has, all for a function of the
task's contract that is no constructor, and that accepts payments if any such function does. Each
has the time of a look at the clock of its own, was submitted with the values that its inputs stand
for, and the node has decided on it. -/
structure AnsweredBatch (e : Engine ω) (c : Campaign ω) (task : Task) (contract : Contract)
    (function : ContractFunction) (batch : List Transaction)
    (calls : List (TransactionId × List Value)) : Prop where
  hcontract : c.store.contractOfTask task.id = .ok contract
  own : function ∈ c.store.functionsOf contract.id
  callable : function.isConstructor = false
  payable : (∃ f ∈ c.store.functionsOf contract.id, f.isConstructor = false ∧ f.payable = true) →
    function.payable = true
  size : batch.length = e.config.fuzzing.batchSize
  distinct : (batch.map (·.id)).Nodup
  new : ∀ tx ∈ batch, ∀ old ∈ c.store.transactions, old.id ≠ tx.id
  target : ∀ tx ∈ batch, tx.task = task.id ∧ tx.function = function.id
  dated : batch.map (·.timestamp) = (List.range batch.length).map (e.services.clock c.world)
  decoded : ∃ inputs, contract.inputsOf function = .ok inputs ∧
    List.Forall₂ (fun tx call => call.1 = tx.id ∧ deserializeAll inputs tx.inputs = .ok call.2)
      batch calls
  decided : ∀ tx ∈ batch, (e.services.submit contract function.name calls c.world).1.Decides tx
  settled : ∀ tx ∈ batch, tx.status ≠ .created

/-- Each transaction of a batch is submitted with the values that go with its inputs. -/
theorem forall₂_batchCalls {first : Nat} {task : TaskId} {function : FunctionId}
    {clock : Nat → Instant} {inputs : List AbiParam} {generated : List (Seed × List Value)}
    {txs : List Transaction} (htxs : txs = newBatch first task function clock (generated.map (·.1)))
    (read : ∀ r ∈ generated, deserializeAll inputs r.1 = .ok r.2) (outcome : BatchOutcome) :
    List.Forall₂ (fun tx call => call.1 = tx.id ∧ deserializeAll inputs tx.inputs = .ok call.2)
      (txs.map outcome.apply) (batchCalls txs generated) := by
  subst htxs
  refine List.forall₂_iff_get.mpr ⟨by simp [batchCalls, newBatch], fun i hi hi' => ?_⟩
  have hlt : i < generated.length := by simpa [newBatch] using hi
  let tx := Transaction.new ⟨first + i⟩ task function generated[i].1 (clock i)
  have htx : List.get _ ⟨i, hi⟩ = outcome.apply tx := by simp [newBatch, tx]
  have hcall : List.get _ ⟨i, hi'⟩ = (tx.id, generated[i].2) := by
    simp [batchCalls, newBatch, tx, Transaction.new]
  rw [htx, hcall]
  have hinputs : (outcome.apply tx).inputs = tx.inputs :=
    congrArg (·.2.2) (outcome.request_apply tx)
  exact ⟨(Ledger.apply_same outcome tx).1.symm,
    hinputs.symm ▸ read generated[i] (List.getElem_mem hlt)⟩

/-- What was generated for a running task makes a batch that the node's answer completes. -/
theorem Submitting.answeredBatch (h : c.ledger.Sound) {task : Task} {contract : Contract}
    {function : ContractFunction} {generated : List (Seed × List Value)} {source : Source}
    (submitting : Submitting e c task contract function generated source)
    {txs : List Transaction}
    (htxs : txs = newBatch c.nextTransaction task.id function.id (e.services.clock c.world)
      (generated.map (·.1))) {outcome : BatchOutcome}
    (answer : (e.services.submit contract function.name (batchCalls txs generated) c.world).1 =
      outcome) :
    AnsweredBatch e c task contract function (txs.map outcome.apply)
      (batchCalls txs generated) := by
  obtain ⟨definition, method, between, hdefinition, hmethod, drawn⟩ := submitting.drawn
  obtain ⟨hsize, hread⟩ := always_generateBatch _ _ _ _ _ between generated
    (congrArg Prod.fst drawn)
  obtain ⟨hown, hcallable⟩ := mem_of_mem_candidates submitting.candidate
  have hinputs := Contract.inputsOf_of_method hdefinition hmethod hcallable
  have numbers : (txs.map outcome.apply).map (·.id.number) =
      List.range' c.nextTransaction (generated.map (·.1)).length :=
    htxs ▸ Ledger.numbers_map_apply _ _ _ _ _ outcome
  have length : (txs.map outcome.apply).length = generated.length := by
    rw [List.length_map, htxs, Ledger.length_newBatch, List.length_map]
  have decides : ∀ tx ∈ txs.map outcome.apply, outcome.Decides tx := by
    intro tx htx
    obtain ⟨number, time, seed, -, rfl⟩ := Ledger.exists_of_mem_batch (htxs ▸ htx)
    exact outcome.decides_apply rfl
  refine {
    hcontract := submitting.hcontract
    own := hown
    callable := hcallable
    payable := payable_of_mem_candidates submitting.candidate
    size := ?_
    distinct := RecordId.nodup_of_numbers numbers
    new := fun tx htx old hold heq => ?_
    target := fun tx htx => ?_
    dated := by
      rw [length, htxs, Ledger.timestamps_map_apply, List.length_map]
    decoded := ⟨method.inputs, hinputs, forall₂_batchCalls htxs hread outcome⟩
    decided := fun tx htx => answer ▸ decides tx htx
    settled := fun tx htx => (decides tx htx).ne_created }
  · exact length.trans hsize
  · -- The numbers of a batch are beyond all that were handed out before.
    have hbelow : old.id.number < c.nextTransaction := h.numbered old hold
    rw [heq] at hbelow
    exact absurd hbelow (Nat.not_lt.mpr (RecordId.number_of_mem numbers htx).1)
  · obtain ⟨seed, -, same⟩ := Ledger.exists_seed_of_mem_batch (htxs ▸ htx)
    obtain ⟨htask, hrest⟩ := Prod.mk.inj same
    exact ⟨htask, (Prod.mk.inj hrest).1⟩

/-! ### Requests -/

/-- A request for inputs is handled with the result `r` and leads from `c` to `c'`, while services
are called as in `calls`. If it fails or if the task is not running, no record is changed and
nothing is called. Else an answered batch is added to the records, which was submitted by the only
call. -/
structure AllOrNothing (e : Engine ω) (id : TaskId) (c : Campaign ω) (r : Except Failure Unit)
    (c' : Campaign ω) (calls : List ServiceCall) : Prop where
  failed : ∀ failure, r = .error failure → c'.store = c.store ∧ c'.world = c.world ∧ calls = []
  found : r = .ok () → ∃ task, c.store.getTask id = .ok task
  idle : r = .ok () → ∀ task, c.store.getTask id = .ok task → task.isRunning = false →
    c' = c ∧ calls = []
  submitted : r = .ok () → ∀ task, c.store.getTask id = .ok task → task.isRunning = true →
    ∃ contract function batch inputs, AnsweredBatch e c task contract function batch inputs ∧
      c'.store = { c.store with transactions := c.store.transactions ++ batch } ∧
      calls = [.submit contract function.name inputs]

/-- Whatever a request for inputs leads to in a world with notes, it is all or nothing without
them. -/
theorem SubmitOutcome.allOrNothing (h : c.ledger.Sound) {id : TaskId}
    {result : Except Failure Unit × Campaign (ω × List ServiceCall)}
    (outcome : SubmitOutcome e.noting id (c.noting []) result) :
    AllOrNothing e id c result.1 result.2.silent result.2.world.2 := by
  cases outcome with
  | failed failure source => exact ⟨fun _ _ => ⟨rfl, rfl, rfl⟩, nofun, nofun, nofun⟩
  | @idle task htask idle =>
    refine ⟨nofun, fun _ => ⟨task, htask⟩, fun _ _ _ _ => ⟨rfl, rfl⟩,
      fun _ task' htask' running => ?_⟩
    obtain rfl := Except.ok.inj (htask.symm.trans htask')
    cases idle.symm.trans running
  | @submitted task contract function generated source outcome world hid submitting answer =>
    have htask : c.store.getTask id = .ok task := hid ▸ submitting.htask
    -- Nothing that was chosen or generated depends on the notes.
    have plain : Submitting e c task contract function generated source :=
      ⟨submitting.htask, submitting.running, submitting.hcontract, submitting.candidate,
        submitting.drawn⟩
    obtain ⟨houtcome, hworld⟩ := Prod.mk.inj answer
    refine ⟨nofun, fun _ => ⟨task, htask⟩, fun _ task' htask' idle => ?_,
      fun _ task' htask' running => ?_⟩
    · obtain rfl := Except.ok.inj (htask.symm.trans htask')
      cases idle.symm.trans submitting.running
    · obtain rfl := Except.ok.inj (htask.symm.trans htask')
      refine ⟨contract, function, _, _, plain.answeredBatch h rfl houtcome, rfl, ?_⟩
      exact hworld ▸ rfl

namespace Campaign

variable {world : ω} {deployer fuzzer : Source}

/-- In every state of a run, every request for inputs is all or nothing, whatever the engine that
handles it is configured with, whatever is drawn for it, and whatever the node answers. -/
theorem Later.request_allOrNothing {before : Engine ω}
    (h : Later before (initial world deployer fuzzer) c) (e : Engine ω) (id : TaskId)
    (source : Source) :
    let start := { c with fuzzerSource := source }
    AllOrNothing e id start ((handle e .fuzzer id).perform start).1
      ((handle e .fuzzer id).perform start).2 (Listener.fuzzer.serviceCalls e id start) := by
  intro start
  have sound : start.ledger.Sound := h.sound
  have outcome : SubmitOutcome e.noting id (start.noting [])
      ((handle e.noting .fuzzer id).perform (start.noting [])) :=
    submitInputs_outcome (c := start.noting []) sound id
  rw [perform_handle_silent]
  exact outcome.allOrNothing sound

/-- The world in which the node answers one call with a hash and a reason why there is none, and the
next one with neither. -/
def evasiveWorld : World :=
  { switchWorld with plan := [⟨some .next, some "out of gas"⟩, ⟨none, none⟩] }

/-- There the first transaction of a batch is running, and the second one, which is a second younger,
was not sent. -/
theorem request_allOrNothing_evasiveWorld :
    let start := { deployedIn evasiveWorld with fuzzerSource := .ofSeed 1 }
    let result := (handle tickingEngine .fuzzer ⟨0⟩).perform start
    AllOrNothing tickingEngine ⟨0⟩ start result.1 result.2
        (Listener.fuzzer.serviceCalls tickingEngine ⟨0⟩ start) ∧
      result.1 = .ok () ∧
      result.2.store.transactions.map (fun tx => (tx.status, tx.hash, tx.timestamp.seconds)) =
        [(.done, some "h0", 0), (.running, some "h1", 0), (.sendError, none, 1)] :=
  ⟨(later_deployedIn evasiveWorld).request_allOrNothing tickingEngine ⟨0⟩ (.ofSeed 1),
    by decide +kernel, by decide +kernel⟩

end Campaign

end ContractFuzz
