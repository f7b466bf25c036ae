import ContractFuzz.Proofs.Campaign.Sound
import ContractFuzz.Proofs.Random.Always
/-!
# What the fuzzer does

All outcomes of handling a request for inputs. A failure comes before anything is recorded; else a
whole batch is recorded, and the node's answer decides on the status of each of its transactions.

## Main definitions

* `SubmitOutcome` : the outcomes.

## Main results

* `submitInputs_outcome` : there are no others.
* `moves_submitInputs` : the moves that are made.
-/

namespace ContractFuzz

open Activity

variable {ω : Type} {e : Engine ω} {c : Campaign ω}

/-- What was chosen and generated for a running task: a function of its contract, and a batch of
arguments for it. -/
structure Submitting (e : Engine ω) (c : Campaign ω) (task : Task) (contract : Contract)
    (function : ContractFunction) (generated : List (Seed × List Value)) (source : Source) :
    Prop where
  htask : c.store.getTask task.id = .ok task
  running : task.isRunning = true
  hcontract : c.store.contractOfTask task.id = .ok contract
  candidate : function ∈ candidates (c.store.functionsOf contract.id)
  drawn : ∃ definition method between, contract.definition = .ok definition ∧
    definition.method function.name = .ok method ∧
    (generateBatch e.config.fuzzing task.strategy function.id method.inputs c.store).run between =
      (.ok generated, source)

/-- The campaigns after a batch was recorded, submitted and answered. -/
def Campaign.withBatch (c : Campaign ω) (source : Source) (task : TaskId)
    (function : ContractFunction) (generated : List (Seed × List Value)) (outcome : BatchOutcome)
    (clock : Nat → Instant) (world : ω) : Campaign ω :=
  let txs := newBatch c.nextTransaction task function.id clock (generated.map (·.1))
  { c with
    store := c.store.createTransactions (txs.map outcome.apply)
    fuzzerSource := source
    nextTransaction := c.nextTransaction + generated.length
    world := world
    log := c.log ++ txs.filterMap (outcome.warning? function.name) }

/-- The calls of a batch: its transactions, each with the arguments that were generated for it. -/
def batchCalls (txs : List Transaction) (generated : List (Seed × List Value)) :
    List (TransactionId × List Value) :=
  (txs.map (·.id)).zip (generated.map (·.2))

/-- What a request for inputs leads to. -/
inductive SubmitOutcome (e : Engine ω) (id : TaskId) (c : Campaign ω) :
    Except Failure Unit × Campaign ω → Prop
  | failed (failure : Failure) (source : Source) :
      SubmitOutcome e id c (.error failure, { c with fuzzerSource := source })
  | idle {task : Task} (htask : c.store.getTask id = .ok task) (idle : task.isRunning = false) :
      SubmitOutcome e id c (.ok (), c)
  | submitted {task : Task} {contract : Contract} {function : ContractFunction}
      {generated : List (Seed × List Value)} {source : Source} {outcome : BatchOutcome} {world : ω}
      (hid : task.id = id) (submitting : Submitting e c task contract function generated source)
      (answer : e.services.submit contract function.name
        (batchCalls (newBatch c.nextTransaction task.id function.id (e.services.clock c.world)
          (generated.map (·.1))) generated) c.world = (outcome, world)) :
      SubmitOutcome e id c (.ok (), c.withBatch source task.id function generated outcome
        (e.services.clock c.world) world)

/-- The function that is picked is one of the candidates. -/
theorem always_pickFunction (contract : Contract) (functions : List ContractFunction) :
    (pickFunction contract functions).Always (· ∈ candidates functions) := by
  refine TryDraw.always_bind (Q := fun picked => ∀ f, picked = some f → f ∈ candidates functions)
    (TryDraw.always_draw (Draw.always_choose (fun f hf g hg => Option.some.inj hg ▸ hf)
      fun _ g hg => by cases hg)) fun picked hpicked => ?_
  cases picked with
  | none => exact TryDraw.always_throw _
  | some f => exact TryDraw.always_pure (hpicked f rfl)

/-- A batch is recorded, the node answers, and each transaction of the batch gets its status. -/
theorem perform_submitBatch {d : Campaign ω} {task : TaskId} {contract : Contract}
    {function : ContractFunction} {clock : Nat → Instant} {generated : List (Seed × List Value)}
    {outcome : BatchOutcome} {world : ω}
    (answer : e.services.submit contract function.name
      (batchCalls (newBatch d.nextTransaction task function.id clock (generated.map (·.1)))
        generated) d.world = (outcome, world)) :
    (submitBatch e contract task function clock generated).perform d =
      (.ok (), d.withBatch d.fuzzerSource task function generated outcome clock world) := by
  unfold submitBatch
  rw [perform_bind_of_ok (perform_newTransactions _ _), perform_bind_of_ok (perform_change _ _)]
  let txs := newBatch d.nextTransaction task function.id clock (generated.map (·.1))
  let filed : Campaign ω := { d with
    store := d.store.createTransactions txs
    nextTransaction := d.nextTransaction + generated.length }
  have hfiled : filed.store.transactions = d.store.transactions ++ txs := rfl
  have distinct : (txs.map (·.id)).Nodup :=
    RecordId.nodup_of_numbers (Ledger.numbers_newBatch _ _ _ _ _)
  let ask := e.services.submit contract function.name (batchCalls txs generated)
  have hsubmit : perform (atomically fun c : Campaign ω =>
      ((ask c.world).1, { c with world := (ask c.world).2 })) filed =
        (.ok outcome, { filed with world }) :=
    perform_atomically_of_eq (by rw [show ask filed.world = (outcome, world) from answer])
  have hupdate := Store.updateTransactions_append
    (fun tx => (Ledger.apply_same outcome tx).1) hfiled distinct
  refine (perform_bind_of_ok hsubmit).trans ?_
  rw [perform_bind_of_ok (perform_forM_warn _ _)]
  exact perform_update_of_ok hupdate

/-- Whatever a request for inputs leads to is one of the outcomes, as long as tasks are kept under
their own ids. -/
theorem submitInputs_outcome_of_named
    (named : ∀ {id t}, c.store.tasks.get? id = some t → t.id = id) (id : TaskId) :
    SubmitOutcome e id c ((submitInputs e id).perform c) := by
  unfold submitInputs
  cases htask : c.store.getTask id with
  | error failure =>
    rw [perform_query_bind_of_error htask]
    exact .failed failure c.fuzzerSource
  | ok task =>
    rw [perform_query_bind_of_ok htask]
    cases hrunning : task.isRunning with
    | false => exact .idle htask hrunning
    | true =>
      obtain rfl : task.id = id := named (Store.getTask_eq_ok_iff.mp htask)
      rw [if_pos rfl]
      cases hcontract : c.store.contractOfTask task.id with
      | error failure =>
        rw [perform_query_bind_of_error hcontract]
        exact .failed failure c.fuzzerSource
      | ok contract =>
        rw [perform_query_bind_of_ok hcontract]
        cases hdefinition : contract.definition with
        | error failure =>
          rw [perform_ofExcept_bind_of_error rfl]
          exact .failed failure c.fuzzerSource
        | ok definition =>
          rw [perform_ofExcept_bind_of_ok rfl, perform_view_bind]
          rcases hpick : (pickFunction contract (c.store.functionsOf contract.id)).run
            c.fuzzerSource with ⟨picked, between⟩
          cases picked with
          | error failure =>
            rw [perform_bind_of_error (perform_drawAsFuzzer_of_eq hpick)]
            exact .failed failure between
          | ok function =>
            rw [perform_bind_of_ok (perform_drawAsFuzzer_of_eq hpick)]
            cases hmethod : definition.method function.name with
            | error failure =>
              rw [perform_ofExcept_bind_of_error rfl]
              exact .failed failure between
            | ok method =>
              rw [perform_ofExcept_bind_of_ok rfl, perform_bind_of_ok (perform_clock _ _)]
              dsimp only
              rcases hdrawn : (generateBatch e.config.fuzzing task.strategy function.id
                method.inputs c.store).run between with ⟨drawn, source⟩
              cases drawn with
              | error failure =>
                rw [perform_bind_of_error (perform_drawAsFuzzer_of_eq
                  (c := { c with fuzzerSource := between }) hdrawn)]
                exact .failed failure source
              | ok generated =>
                rw [perform_bind_of_ok (perform_drawAsFuzzer_of_eq
                  (c := { c with fuzzerSource := between }) hdrawn)]
                rcases hanswer : e.services.submit contract function.name (batchCalls (newBatch
                  c.nextTransaction task.id function.id (e.services.clock c.world)
                  (generated.map (·.1))) generated) c.world with ⟨outcome, world⟩
                have candidate := always_pickFunction contract (c.store.functionsOf contract.id)
                  c.fuzzerSource function (congrArg Prod.fst hpick)
                have submitting : Submitting e c task contract function generated source :=
                  ⟨htask, hrunning, hcontract, candidate, definition, method, between, hdefinition,
                    hmethod, hdrawn⟩
                have hbatch := perform_submitBatch (d := { c with fuzzerSource := source }) hanswer
                exact (congrArg (SubmitOutcome e task.id c) hbatch).mpr
                  (.submitted rfl submitting hanswer)

theorem submitInputs_outcome (h : c.ledger.Sound) (id : TaskId) :
    SubmitOutcome e id c ((submitInputs e id).perform c) :=
  submitInputs_outcome_of_named h.taskNamed id

/-- What a request for inputs does to the ledger, if it was published. -/
theorem moves_submitInputs {Accepted : Task → Contract → Prop} (h : c.ledger.Sound) {id : TaskId}
    (requested : id ∈ c.requests.published) :
    Ledger.Moves e.config Accepted c.ledger ((submitInputs e id).perform c).2.ledger := by
  have houtcome := submitInputs_outcome (e := e) h id
  generalize (submitInputs e id).perform c = result at houtcome
  cases houtcome with
  | failed failure source => exact .refl
  | idle htask idle => exact .refl
  | @submitted task contract function generated source outcome world hid submitting answer =>
    obtain ⟨definition, method, between, hdefinition, hmethod, hdrawn⟩ := submitting.drawn
    exact .single (.submit (e.services.clock c.world) outcome (hid ▸ requested) submitting.htask
      submitting.running submitting.hcontract hdefinition submitting.candidate hmethod
      (congrArg Prod.fst hdrawn))

end ContractFuzz
