import ContractFuzz.Proofs.Campaign.Sound
/-!
# What the recorder does

All outcomes of a callback about a transaction. A callback that fails changes nothing; one that
succeeds changes one transaction, and one about an execution also the aggregate of its task.

## Main definitions

* `RecordOutcome`, `WeakenOutcome` : the outcomes of the two kinds of callbacks.

## Main results

* `perform_recordExecution`, `perform_recordWeaknesses` : what is recorded, and the answer.
* `recordExecution_outcome`, `recordWeaknesses_outcome` : there are no other outcomes.
* `moves_recordExecution`, `moves_recordWeaknesses` : the moves that are made.
* `perform_expireStale` : what it means to give up waiting.
-/

namespace ContractFuzz

open Activity

variable {ω : Type} {e : Engine ω} {c : Campaign ω}

/-- The campaigns after a transaction was recorded that stands between others. -/
def Campaign.recorded (c : Campaign ω) (e : Engine ω) (executed : PcSet)
    (before after : List Transaction) (tx : Transaction) (task : Task) (contract : Contract) :
    Campaign ω :=
  { c with store := { c.store with
      transactions := before ++
        tx.recorded e.config.fuzzing.critical contract task.executed executed :: after
      tasks := c.store.tasks.insert tx.task (task.mergeExecuted executed) } }

/-- The campaigns after new inputs were requested for a task, if it is running and nothing is left
that it waits for. -/
def Campaign.redriven (c : Campaign ω) (task : Task) : Campaign ω :=
  if task.isRunning && !c.store.hasPending task.id then c.publish .fuzzer task.id else c

/-- Requesting inputs changes nothing but the requests. -/
theorem Campaign.redriven_eq_requests (c : Campaign ω) (task : Task) :
    c.redriven task = { c with requests := { c.requests with published := c.requests.published ++
      if task.isRunning && !(c.store.hasPending task.id) then [task.id] else [] } } := by
  unfold Campaign.redriven
  split
  · rfl
  · rw [List.append_nil]

/-- Requesting inputs leaves the records as they are. -/
theorem store_redriven (c : Campaign ω) (task : Task) : (c.redriven task).store = c.store := by
  rw [Campaign.redriven_eq_requests]

/-- What a callback about the execution of the transaction with a hash leads to. -/
inductive RecordOutcome (e : Engine ω) (hash : String) (executed : PcSet) (c : Campaign ω) :
    Except Failure Transaction × Campaign ω → Prop
  | failed (failure : Failure) : RecordOutcome e hash executed c (.error failure, c)
  | repeated {tx : Transaction} (htx : c.store.transactionWithHash hash = .ok tx)
      (recorded : tx.status = .done) : RecordOutcome e hash executed c (.ok tx, c)
  | recorded {before after : List Transaction} {tx : Transaction} {task : Task}
      {contract : Contract} (split : c.store.transactions = before ++ tx :: after)
      (hashed : tx.hash = some hash) (first : ∀ tx' ∈ before, tx'.hash ≠ some hash)
      (unrecorded : tx.status ≠ .done) (htask : c.store.getTask tx.task = .ok task)
      (hcontract : c.store.contractOfTask tx.task = .ok contract) :
      RecordOutcome e hash executed c
        (.ok (tx.recorded e.config.fuzzing.critical contract task.executed executed),
          (c.recorded e executed before after tx task contract).redriven
            (task.mergeExecuted executed))

/-- The last steps of a recording request new inputs if need be. -/
private theorem perform_redrive (task : Task) (tx : Transaction) (c : Campaign ω) :
    perform (ω := ω) (do
      if task.isRunning then
        if !(← Activity.view (·.hasPending task.id)) then
          let _ ← Activity.publish .fuzzer task.id
      return tx) c = (.ok tx, c.redriven task) := by
  unfold Campaign.redriven
  cases task.isRunning with
  | false => rfl
  | true =>
    rw [if_pos rfl, perform_view_bind, Bool.true_and]
    cases c.store.hasPending task.id <;> rfl

/-- A callback about a transaction that was not recorded succeeds and records it. -/
theorem perform_recordExecution (distinct : (c.store.transactions.map (·.id)).Nodup)
    {hash : String} (executed : PcSet)
    {before after : List Transaction} {tx : Transaction} {task : Task} {contract : Contract}
    (split : c.store.transactions = before ++ tx :: after) (hashed : tx.hash = some hash)
    (first : ∀ tx' ∈ before, tx'.hash ≠ some hash) (unrecorded : tx.status ≠ .done)
    (htask : c.store.getTask tx.task = .ok task)
    (hcontract : c.store.contractOfTask tx.task = .ok contract) :
    (recordExecution e hash executed).perform c =
      (.ok (tx.recorded e.config.fuzzing.critical contract task.executed executed),
        (c.recorded e executed before after tx task contract).redriven
          (task.mergeExecuted executed)) := by
  have htx := Store.transactionWithHash_eq split hashed first
  have later : ∀ tx' ∈ after, tx'.id ≠ tx.id := id_ne_of_mem_after (split ▸ distinct)
  have hupdate : c.store.updateTransaction
      (tx.recorded e.config.fuzzing.critical contract task.executed executed) = _ :=
    Store.updateTransaction_eq split rfl later
  have hmerge : Store.mergeExecuted tx.task executed { c.store with
      transactions := before ++
        tx.recorded e.config.fuzzing.critical contract task.executed executed :: after } = _ :=
    Store.mergeExecuted_eq htask
  unfold recordExecution
  rw [perform_exclusively, perform_query_bind_of_ok htx, if_neg unrecorded,
    perform_query_bind_of_ok htask, perform_query_bind_of_ok hcontract,
    perform_bind_of_ok (perform_update_of_ok hupdate),
    perform_bind_of_ok (perform_commit_of_ok hmerge)]
  exact perform_redrive _ _ _

/-- A callback about an unknown hash fails. -/
theorem perform_recordExecution_of_error {hash : String} {failure : Failure} (executed : PcSet)
    (htx : c.store.transactionWithHash hash = .error failure) :
    (recordExecution e hash executed).perform c = (.error failure, c) := by
  unfold recordExecution
  rw [perform_exclusively, perform_query_bind_of_error htx]

/-- A callback about a transaction that is done is answered with it. -/
theorem perform_recordExecution_of_done {hash : String} {tx : Transaction} (executed : PcSet)
    (htx : c.store.transactionWithHash hash = .ok tx) (hdone : tx.status = .done) :
    (recordExecution e hash executed).perform c = (.ok tx, c) := by
  unfold recordExecution
  rw [perform_exclusively, perform_query_bind_of_ok htx, if_pos hdone]
  rfl

/-- Whatever a callback about an execution leads to is one of the outcomes, as long as transactions
have distinct ids. -/
theorem recordExecution_outcome_of_nodup (distinct : (c.store.transactions.map (·.id)).Nodup)
    (hash : String) (executed : PcSet) :
    RecordOutcome e hash executed c ((recordExecution e hash executed).perform c) := by
  cases htx : c.store.transactionWithHash hash with
  | error failure =>
    rw [perform_recordExecution_of_error executed htx]
    exact .failed failure
  | ok tx =>
    by_cases hdone : tx.status = .done
    · rw [perform_recordExecution_of_done executed htx hdone]
      exact .repeated htx hdone
    · obtain ⟨hashed, before, after, split, first⟩ := Store.exists_of_transactionWithHash htx
      cases htask : c.store.getTask tx.task with
      | error failure =>
        unfold recordExecution
        rw [perform_exclusively, perform_query_bind_of_ok htx, if_neg hdone,
          perform_query_bind_of_error htask]
        exact .failed failure
      | ok task =>
        cases hcontract : c.store.contractOfTask tx.task with
        | error failure =>
          unfold recordExecution
          rw [perform_exclusively, perform_query_bind_of_ok htx, if_neg hdone,
            perform_query_bind_of_ok htask, perform_query_bind_of_error hcontract]
          exact .failed failure
        | ok contract =>
          rw [perform_recordExecution distinct executed split hashed first hdone htask hcontract]
          exact .recorded split hashed first hdone htask hcontract

theorem recordExecution_outcome (h : c.ledger.Sound) (hash : String) (executed : PcSet) :
    RecordOutcome e hash executed c ((recordExecution e hash executed).perform c) :=
  recordExecution_outcome_of_nodup h.distinct hash executed

variable {Accepted : Task → Contract → Prop}

/-- Requesting new inputs is a move, or none. -/
theorem moves_redriven {task : Task} {contract : Contract}
    (hcontract : c.store.contractOfTask task.id = .ok contract)
    (analyzed : contract.isAnalyzed = true) :
    Ledger.Moves e.config Accepted c.ledger (c.redriven task).ledger := by
  unfold Campaign.redriven
  split
  · rw [Campaign.ledger_publish]
    exact .single (.request hcontract analyzed)
  · exact .refl

theorem moves_recordExecution (h : c.ledger.Sound) (hash : String) (executed : PcSet) :
    Ledger.Moves e.config Accepted c.ledger
      ((recordExecution e hash executed).perform c).2.ledger := by
  have houtcome := recordExecution_outcome (e := e) h hash executed
  generalize (recordExecution e hash executed).perform c = result at houtcome
  cases houtcome with
  | failed failure => exact .refl
  | repeated htx recorded => exact .refl
  | @recorded before after tx task contract split hashed first unrecorded htask hcontract =>
    have hmem : tx ∈ c.store.transactions := split ▸ List.mem_append_right _ List.mem_cons_self
    have analyzed := (h.analyzed_iff hcontract).mp (h.awaited tx hmem unrecorded)
    have hid : task.id = tx.task := h.id_eq_of_getTask htask
    have hsame : (c.recorded e executed before after tx task contract).store.contractOfTask
        (task.mergeExecuted executed).id = .ok contract :=
      (congrArg c.store.contractOfTask hid).trans hcontract
    refine .trans (.single ?_) (moves_redriven hsame analyzed)
    exact .record executed split hashed first unrecorded htask hcontract

/-! ### Weaknesses -/

/-- What a callback about the weaknesses of the transaction with a hash leads to. -/
inductive WeakenOutcome (e : Engine ω) (hash : String) (snapshot : Snapshot) (c : Campaign ω) :
    Except Failure (SortedSet String) × Campaign ω → Prop
  | failed (failure : Failure) : WeakenOutcome e hash snapshot c (.error failure, c)
  | weakened {before after : List Transaction} {tx : Transaction} {new : SortedSet String}
      (split : c.store.transactions = before ++ tx :: after) (hashed : tx.hash = some hash)
      (first : ∀ tx' ∈ before, tx'.hash ≠ some hash)
      (hnew : new = (detectWeaknesses e.config.oracles snapshot).diff tx.weaknesses) :
      WeakenOutcome e hash snapshot c
        (.ok new, { c with store := { c.store with
          transactions := before ++ tx.weakened new :: after } })

private theorem weakened_of_isEmpty {tx : Transaction} {new : SortedSet String}
    (h : new.isEmpty = true) : tx.weakened new = tx := by
  have hnil : new.toList = [] := List.isEmpty_iff.mp h
  rw [Transaction.weakened, SortedSet.union, hnil, List.foldl_nil]

/-- A callback about weaknesses that comes with an unknown hash fails. -/
theorem perform_recordWeaknesses_of_error {hash : String} {failure : Failure}
    (snapshot : Snapshot) (htx : c.store.transactionWithHash hash = .error failure) :
    (recordWeaknesses e hash snapshot).perform c = (.error failure, c) := by
  unfold recordWeaknesses
  rw [perform_exclusively, perform_query_bind_of_error htx]

/-- The weaknesses that a transaction did not have are added to it. -/
theorem perform_recordWeaknesses (distinct : (c.store.transactions.map (·.id)).Nodup)
    {hash : String} (snapshot : Snapshot) {before after : List Transaction} {tx : Transaction}
    (split : c.store.transactions = before ++ tx :: after) (hashed : tx.hash = some hash)
    (first : ∀ tx' ∈ before, tx'.hash ≠ some hash) {new : SortedSet String}
    (hnew : new = (detectWeaknesses e.config.oracles snapshot).diff tx.weaknesses) :
    (recordWeaknesses e hash snapshot).perform c = (.ok new, { c with store := { c.store with
      transactions := before ++ tx.weakened new :: after } }) := by
  have htx := Store.transactionWithHash_eq split hashed first
  have later : ∀ tx' ∈ after, tx'.id ≠ tx.id := id_ne_of_mem_after (split ▸ distinct)
  have hupdate : c.store.updateTransaction (tx.weakened new) = _ :=
    Store.updateTransaction_eq split rfl later
  subst hnew
  unfold recordWeaknesses
  rw [perform_exclusively, perform_query_bind_of_ok htx]
  dsimp only
  cases hempty : ((detectWeaknesses e.config.oracles snapshot).diff tx.weaknesses).isEmpty with
  | true =>
    rw [weakened_of_isEmpty hempty, ← split]
    rfl
  | false =>
    rw [Transaction.weakened] at hupdate
    rw [Bool.not_false, if_pos rfl, perform_bind_of_ok (perform_update_of_ok hupdate)]
    rfl

/-- Whatever a callback about weaknesses leads to is one of the outcomes. -/
theorem recordWeaknesses_outcome (h : c.ledger.Sound) (hash : String) (snapshot : Snapshot) :
    WeakenOutcome e hash snapshot c ((recordWeaknesses e hash snapshot).perform c) := by
  cases htx : c.store.transactionWithHash hash with
  | error failure =>
    rw [perform_recordWeaknesses_of_error snapshot htx]
    exact .failed failure
  | ok tx =>
    obtain ⟨hashed, before, after, split, first⟩ := Store.exists_of_transactionWithHash htx
    rw [perform_recordWeaknesses h.distinct snapshot split hashed first rfl]
    exact .weakened split hashed first rfl

theorem moves_recordWeaknesses (h : c.ledger.Sound) (hash : String) (snapshot : Snapshot) :
    Ledger.Moves e.config Accepted c.ledger
      ((recordWeaknesses e hash snapshot).perform c).2.ledger := by
  have houtcome := recordWeaknesses_outcome (e := e) h hash snapshot
  generalize (recordWeaknesses e hash snapshot).perform c = result at houtcome
  cases houtcome with
  | failed failure => exact .refl
  | weakened split hashed first hnew => exact .single (.weaken _ split hashed first)

/-! ### Giving up -/

/-- The campaigns after all transactions of a task were given up that were created until
`cutoff`. -/
def Campaign.expired (c : Campaign ω) (task : TaskId) (cutoff : Instant) : Campaign ω :=
  { c with store := { c.store with
      transactions := c.store.transactions.map fun tx =>
        if tx.task == task && tx.isStale cutoff then tx.expired else tx } }

/-- The stale transactions of a task are given up, and nothing else changes. -/
theorem perform_expireStale (distinct : (c.store.transactions.map (·.id)).Nodup) (task : TaskId)
    (cutoff : Instant) :
    (expireStale task cutoff).perform c =
      (.ok (((c.store.transactionsOf task).filter (·.isStale cutoff)).map (·.id)),
        c.expired task cutoff) := by
  have hfilter : (c.store.transactionsOf task).filter (·.isStale cutoff) =
      c.store.transactions.filter fun tx => tx.task == task && tx.isStale cutoff := by
    rw [Store.transactionsOf, List.filter_filter]
    exact List.filter_congr fun tx _ => Bool.and_comm _ _
  unfold expireStale
  rw [perform_exclusively, perform_view_bind]
  dsimp only
  cases hstale : ((c.store.transactionsOf task).filter (·.isStale cutoff)).isEmpty with
  | true =>
    have hnil := List.isEmpty_iff.mp hstale
    have hsame : c.expired task cutoff = c := by
      have hmap : (c.store.transactions.map fun tx =>
          if tx.task == task && tx.isStale cutoff then tx.expired else tx) =
            c.store.transactions := by
        rw [hfilter, List.isEmpty_iff, List.filter_eq_nil_iff] at hstale
        conv_rhs => rw [← List.map_id c.store.transactions]
        exact List.map_congr_left fun tx htx => if_neg (hstale tx htx)
      rw [Campaign.expired, hmap]
    rw [if_pos rfl, hnil, hsame]
    rfl
  | false =>
    have hupdate : c.store.updateTransactions
        (((c.store.transactionsOf task).filter (·.isStale cutoff)).map fun tx =>
          { tx with status := .done }) = .ok (c.expired task cutoff).store := by
      rw [hfilter]
      exact Store.updateTransactions_eq (f := Transaction.expired) (fun _ => rfl)
        (List.nil_append _).symm distinct
    rw [if_neg Bool.false_ne_true, perform_bind_of_ok (perform_update_of_ok hupdate)]
    rfl

end ContractFuzz
