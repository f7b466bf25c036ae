import ContractFuzz.Proofs.Campaign.CallbackOrder
/-!
# Executions are recorded once

A callback about an execution either changes nothing, or it changes one transaction, the aggregate
of its task, and nothing else. Once it has succeeded, further callbacks with its hash are answered
with the same transaction and change nothing.

## Main definitions

* `RecordsOnly` : how the state after a recording differs from the one before.

## Main results

* `Ledger.Sound.recordsOnly` : a transaction that is not done is recorded.
* `perform_recordEach_of_done` : callbacks about one that is done.
* `Campaign.Later.recordExecution_framed` : all that a callback can do.
-/

namespace ContractFuzz

open Activity

variable {ω : Type} {e : Engine ω} {c c' : Campaign ω}

/-- The outcome of one transaction is recorded, and what it executed is added to the aggregate of
its task. If the task is running and nothing else is waited for, inputs are requested for it. -/
structure RecordsOnly (executed : PcSet) (old new : Transaction) (c c' : Campaign ω) : Prop where
  /-- One transaction is replaced where it stands. -/
  replaced : ∃ before after, c.store.transactions = before ++ old :: after ∧
    c'.store.transactions = before ++ new :: after
  /-- Its outcome is new, and nothing else of it. -/
  outcome : ∃ hits coverageGain distanceGain,
    new = { old with status := .done, executed, hits, coverageGain, distanceGain }
  /-- Of its task the aggregate is new, and other tasks stay. -/
  task : ∃ t, c.store.tasks.get? old.task = some t ∧
    (∀ id, c'.store.tasks.get? id =
      if id = old.task then some { t with executed := t.executed.union executed }
      else c.store.tasks.get? id) ∧
    c'.requests = { c.requests with published := c.requests.published ++
      if t.isRunning && !(c'.store.hasPending old.task) then [old.task] else [] }
  /-- Contracts, functions, numbers, other topics, sources, the world and the log stay. -/
  others : c' = { c with
    store := { c.store with
      tasks := c'.store.tasks
      transactions := c'.store.transactions }
    requests := c'.requests }

/-- A transaction that is not done is recorded, and nothing else changes. -/
theorem Ledger.Sound.recordsOnly (h : c.ledger.Sound) {hash : String} {tx : Transaction}
    (executed : PcSet) (htx : c.store.transactionWithHash hash = .ok tx)
    (hopen : tx.status ≠ .done) :
    ∃ new c', (recordExecution e hash executed).perform c = (.ok new, c') ∧
      RecordsOnly executed tx new c c' := by
  obtain ⟨hashed, before, after, split, first⟩ := Store.exists_of_transactionWithHash htx
  obtain ⟨t, k, htask, hk⟩ := h.exists_task_contract (Store.mem_of_transactionWithHash htx).2
  have hid : t.id = tx.task := h.id_eq_of_getTask htask
  refine ⟨_, _, perform_recordExecution h.distinct executed split hashed first hopen htask hk, ?_⟩
  exact {
    replaced := ⟨before, after, split, by rw [store_redriven]; rfl⟩
    outcome := ⟨_, _, _, rfl⟩
    task := by
      refine ⟨t, Store.getTask_eq_ok_iff.mp htask, fun id => ?_, ?_⟩
      · rw [store_redriven]
        exact SortedMap.get?_insert _ _ _ _
      · rw [store_redriven, Campaign.redriven_eq_requests, ← hid]
        rfl
    others := by
      rw [Campaign.redriven_eq_requests]
      rfl }

/-- However often callbacks about a transaction that is done arrive, they are answered with it. -/
theorem perform_recordEach_of_done {hash : String} {tx : Transaction}
    (htx : c.store.transactionWithHash hash = .ok tx) (hdone : tx.status = .done)
    (sets : List PcSet) :
    (recordEach e (sets.map fun executed => ⟨hash, executed⟩)).perform c =
      (.ok (sets.map fun _ => tx), c) := by
  induction sets with
  | nil => rfl
  | cons executed sets ih =>
    rw [List.map_cons, recordEach,
      perform_bind_of_ok (perform_recordExecution_of_done executed htx hdone),
      perform_bind_of_ok ih]
    rfl

/-- What a successful callback has answered with is done, and found under its hash. -/
theorem done_of_perform_recordExecution (h : c.ledger.Sound) {hash : String} {executed : PcSet}
    {tx : Transaction} (performed : (recordExecution e hash executed).perform c = (.ok tx, c')) :
    c'.store.transactionWithHash hash = .ok tx ∧ tx.status = .done := by
  have houtcome := recordExecution_outcome (e := e) h hash executed
  rw [performed] at houtcome
  cases houtcome with
  | repeated htx recorded => exact ⟨htx, recorded⟩
  | @recorded before after old task contract split hashed first unrecorded htask hcontract =>
    refine ⟨?_, rfl⟩
    rw [store_redriven]
    exact Store.transactionWithHash_eq rfl hashed first

namespace Campaign

variable {world : ω} {deployer fuzzer : Source}

/-- A callback about an execution that fails changes nothing, and one about a transaction that is
done is answered with it. Any other one changes the outcome of one transaction and the aggregate of
its task. After a callback that has succeeded all further ones with its hash get the same answer and
change nothing. -/
theorem Later.recordExecution_framed (h : Later e (initial world deployer fuzzer) c)
    (hash : String) (executed : PcSet) :
    (∀ failure c', (recordExecution e hash executed).perform c = (.error failure, c') → c' = c) ∧
    (∀ tx, c.store.transactionWithHash hash = .ok tx → tx.status = .done →
      (recordExecution e hash executed).perform c = (.ok tx, c)) ∧
    (∀ tx, c.store.transactionWithHash hash = .ok tx → tx.status ≠ .done →
      ∃ new c', (recordExecution e hash executed).perform c = (.ok new, c') ∧
        RecordsOnly executed tx new c c') ∧
    ∀ tx c', (recordExecution e hash executed).perform c = (.ok tx, c') → ∀ sets : List PcSet,
      (recordEach e (sets.map fun executed' => ⟨hash, executed'⟩)).perform c' =
        (.ok (sets.map fun _ => tx), c') := by
  have sound := h.sound
  refine ⟨fun failure c' performed => ?_, fun tx => perform_recordExecution_of_done executed,
    fun tx => sound.recordsOnly executed, fun tx c' performed sets => ?_⟩
  · have houtcome := recordExecution_outcome (e := e) sound hash executed
    rw [performed] at houtcome
    cases houtcome
    rfl
  · obtain ⟨htx, hdone⟩ := done_of_perform_recordExecution sound performed
    exact perform_recordEach_of_done htx hdone sets

/-- In the short campaign nothing has the hash of a transaction that was not sent, the deployment is
done, and the first input is not. -/
theorem recordExecution_framed_switchSubmitted :
    (∃ failure, (recordExecution switchEngine "h9" .empty).perform switchSubmitted =
      (.error failure, switchSubmitted)) ∧
    (∃ tx, (recordExecution switchEngine "h0" (.ofList [0])).perform switchSubmitted =
      (.ok tx, switchSubmitted)) ∧
    ∃ old new c', (recordExecution switchEngine "h1" (.ofList [0, 10])).perform switchSubmitted =
        (.ok new, c') ∧
      RecordsOnly (.ofList [0, 10]) old new switchSubmitted c' ∧
      (recordEach switchEngine [⟨"h1", .empty⟩, ⟨"h1", .ofList [20]⟩]).perform c' =
        (.ok [new, new], c') := by
  have facts : ((recordExecution switchEngine "h9" .empty).perform
        switchSubmitted).1.toOption.isNone = true ∧
      (switchSubmitted.store.transactionWithHash "h0").toOption.map (·.status) = some .done ∧
      (switchSubmitted.store.transactionWithHash "h1").toOption.map (·.status) = some .running := by
    decide +kernel
  obtain ⟨unknown, deployed, sent⟩ := facts
  obtain ⟨failed, -⟩ := later_switchSubmitted.recordExecution_framed "h9" .empty
  obtain ⟨-, repeated, -⟩ := later_switchSubmitted.recordExecution_framed "h0" (.ofList [0])
  obtain ⟨-, -, recorded, settled⟩ :=
    later_switchSubmitted.recordExecution_framed "h1" (.ofList [0, 10])
  refine ⟨?_, ?_, ?_⟩
  · rcases performed : (recordExecution switchEngine "h9" .empty).perform switchSubmitted
      with ⟨answer, c'⟩
    rw [performed] at unknown
    cases answer with
    | error failure => exact ⟨failure, by rw [failed failure c' performed]⟩
    | ok tx => cases unknown
  · obtain ⟨tx, htx, hdone⟩ := exists_of_toOption deployed
    exact ⟨tx, repeated tx htx hdone⟩
  · obtain ⟨old, hold, running⟩ := exists_of_toOption sent
    obtain ⟨new, c', performed, only⟩ := recorded old hold (by rw [running]; decide)
    exact ⟨old, new, c', performed, only, settled new c' performed [.empty, .ofList [20]]⟩

end Campaign

end ContractFuzz
