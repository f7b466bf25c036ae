import ContractFuzz.Proofs.Interleaving.Safety
/-!
# Recorders side by side

Callbacks from the node and the giving up of transactions are safe, whatever is done between their
steps, and so is the periodic look at all running tasks.

Between the two changes of a recorded execution, that of the transaction and that of the aggregate,
aggregates are settled but for what was executed last.

## Main definitions

* `Campaign.Owing` : aggregates but for what was executed last.

## Main results

* `safe_recordExecution`, `safe_recordWeaknesses`, `safe_expireStale`, `safe_checkTasks`.
-/

namespace ContractFuzz

open Campaign Activity Discipline

variable {ω : Type} {e : Engine ω} {i : Worker} {c c' : Campaign ω}

/-! ### Aggregates but for what was executed last -/

namespace Campaign

/-- Aggregates are settled but for what one of a task's transactions executed. -/
def Owing (task : TaskId) (executed : PcSet) (c : Campaign ω) : Prop :=
  ∀ id all, c.store.aggregate? id = some all →
    ∀ pc, pc ∈ c.store.executedFor id ↔ pc ∈ all ∨ id = task ∧ pc ∈ executed

variable {task : TaskId} {executed : PcSet}

theorem Owing.keptForHolder (h : c.Owing task executed) (kept : c.KeptForHolder c') :
    c'.Owing task executed := by
  intro id all hall pc
  rw [kept.executedFor]
  exact h id all (kept.aggregate id ▸ hall) pc

/-- Once a transaction is recorded, what it executed is owed to the aggregate. -/
theorem Settled.owing (h : c.Settled) {before after : List Transaction} {old : Transaction}
    (new : Transaction) (split : c.store.transactions = before ++ old :: after)
    (unexecuted : old.executed = .empty) (same : new.task = old.task) :
    Owing old.task new.executed
      { c with store := c.store.withTransactions (before ++ new :: after) } := by
  intro id all hall pc
  rw [h id all hall, Store.mem_executedFor, Store.mem_executedFor, split]
  change (∃ tx ∈ before ++ new :: after, tx.task = id ∧ pc ∈ tx.executed) ↔ _
  have hold : ¬(old.task = id ∧ pc ∈ old.executed) := fun hboth =>
    SortedSet.not_mem_empty pc (unexecuted ▸ hboth.2)
  rw [exists_mem_middle_iff, exists_mem_middle_iff, or_iff_right hold, same, or_comm,
    eq_comm (a := old.task)]

/-- What is owed is added to the aggregate. -/
theorem Owing.settled (h : c.Owing task executed) {t : Task}
    (ht : c.store.tasks.get? task = some t) :
    Settled { c with store := { c.store with
      tasks := c.store.tasks.insert task (t.mergeExecuted executed) } } := by
  intro id all hall
  obtain ⟨t', ht', rfl⟩ := Store.aggregate?_eq_some_iff.mp hall
  refine SortedSet.ext_mem fun pc => ?_
  change pc ∈ t'.executed ↔ pc ∈ c.store.executedFor id
  rcases SortedMap.get?_insert_eq_some_iff.mp ht' with ⟨rfl, rfl⟩ | ⟨hne, ht'⟩
  · rw [h id t.executed (Store.aggregate?_eq_some_iff.mpr ⟨t, ht, rfl⟩) pc]
    change pc ∈ t.executed.union executed ↔ _
    rw [SortedSet.mem_union, and_iff_right rfl]
  · rw [h id t'.executed (Store.aggregate?_eq_some_iff.mpr ⟨t', ht', rfl⟩) pc,
      or_iff_left fun hboth => hne hboth.1]

/-- Versions that executed the same leave aggregates settled. -/
theorem Settled.withTransactions (h : c.Settled) {txs : List Transaction}
    (same : List.Forall₂
      (fun old new : Transaction => new.task = old.task ∧ new.executed = old.executed)
      c.store.transactions txs) :
    Settled { c with store := c.store.withTransactions txs } :=
  h.of_eq (fun _ => rfl) (Store.executedFor_eq_of_forall₂ (t := c.store.withTransactions txs) same)

/-- Adding to an aggregate is allowed with the lock. -/
theorem withLock_mergeExecuted {t : Task} (ht : c.store.tasks.get? task = some t) :
    c.WithLock { c with store := { c.store with
      tasks := c.store.tasks.insert task (t.mergeExecuted executed) } } where
  tasks := .insert ht ⟨fun h => h, fun _ h => SortedSet.mem_union.mpr (.inl h)⟩
  transactions := List.forall₂_same.mpr fun tx _ => ⟨.refl tx, fun _ => rfl⟩
  number := rfl

end Campaign

/-! ### Changes under the lock -/

/-- A transaction that has a hash was submitted. -/
theorem Transaction.Regular.submitted {tx : Transaction} (h : tx.Regular) {hash : String}
    (hashed : tx.hash = some hash) : tx.status ≠ .created := fun created => by
  rw [h.hash_of_created created] at hashed
  cases hashed

/-- With the lock, a submitted transaction can be replaced by a later version of it, since nobody
else has changed it. -/
theorem Activity.Safe.updateTransaction_bind {α : Type}
    {R : Except Failure α → Bool → Campaign ω → Prop} {k : Unit → Activity ω α}
    {old : Transaction} (new : Transaction) (hmem : old ∈ c.store.transactions)
    (submitted : old.status ≠ .created)
    (becomes : old.Becomes new) (regular : new.Regular)
    (fail : ∀ e c', c.KeptForHolder c' → R (.error e) true c')
    (ok : ∀ c' before after, c.KeptForHolder c' →
      c'.store.transactions = before ++ old :: after →
      Activity.Safe i R (k ()) true
        { c' with store := c'.store.withTransactions (before ++ new :: after) }) :
    Activity.Safe i R (update (·.updateTransaction new) >>= k) true c := by
  refine Activity.Safe.update_bind fail fun s c' found orderly hs => ?_
  have hmem' := KeptForHolder.submitted found old hmem submitted
  obtain ⟨before, after, split, hupdate⟩ := orderly.updateTransaction hmem' becomes.id.symm
  obtain rfl := Except.ok.inj (hupdate.symm.trans hs)
  have revised := revised_middle (P := (·.status ≠ .created)) (.inr ⟨submitted, becomes, regular⟩)
    before after
  rw [← split] at revised
  exact ⟨WithLock.revise revised, orderly.revise revised, ok c' before after found split⟩

/-- With the lock, a transaction that is found by its hash is a regular one, and aggregates are
settled when it is found. -/
theorem Activity.Safe.transactionWithHash_bind {α : Type} {hash : String}
    {k : Transaction → Activity ω α} (settled : c.Settled)
    (ok : ∀ tx c', c'.Settled → tx.hash = some hash → tx ∈ c'.store.transactions → tx.Regular →
      Activity.Safe i (conduct ω).Restored (k tx) true c') :
    Activity.Safe i (conduct ω).Restored (query (·.transactionWithHash hash) >>= k) true c := by
  refine Activity.Safe.query_bind (fun _ _ found => ⟨rfl, settled.keptForHolder found⟩)
    fun tx c' found orderly htx => ?_
  obtain ⟨hashed, hmem⟩ := Store.mem_of_transactionWithHash htx
  exact ok tx c' (settled.keptForHolder found) hashed hmem (orderly.regular tx hmem)

/-! ### Weaknesses -/

theorem safe_recordWeaknesses (hash : String) (snapshot : Snapshot) :
    (recordWeaknesses e hash snapshot).Safe i Unheld false c := by
  refine Activity.Safe.exclusively fun c₀ _ _ settled => ?_
  refine Activity.Safe.transactionWithHash_bind settled
    fun tx c₁ settled₁ hashed hmem regular => ?_
  have restored : ∀ {c'}, KeptForHolder c₁ c' → c'.Settled := settled₁.keptForHolder
  dsimp only
  split
  · refine Activity.Safe.updateTransaction_bind _ hmem (regular.submitted hashed)
      (Transaction.becomes_weakened tx _) (regular.weakened _)
      (fun _ _ found => ⟨rfl, restored found⟩) fun c₂ before after found₂ split => ?_
    have agree := Ledger.agrees_weaken before after tx
      ((detectWeaknesses e.config.oracles snapshot).diff tx.weaknesses)
    rw [← split] at agree
    have weakened := (restored found₂).withTransactions
      (agree.imp fun _ _ h => ⟨h.task, h.executed⟩)
    exact Activity.Safe.pure fun c' found _ => ⟨rfl, weakened.keptForHolder found⟩
  · exact Activity.Safe.pure fun c' found _ => ⟨rfl, restored found⟩

/-! ### Giving up -/

theorem safe_expireStale (task : TaskId) (cutoff : Instant) :
    (expireStale task cutoff : Activity ω (List TransactionId)).Safe i Unheld false c := by
  refine Activity.Safe.exclusively fun c₀ _ _ settled => ?_
  have restored : ∀ {c'}, KeptForHolder c₀ c' → c'.Settled := settled.keptForHolder
  refine Activity.Safe.view_bind fun c₁ found₁ orderly => ?_
  have restored₁ : ∀ {c'}, KeptForHolder c₁ c' → c'.Settled := fun found =>
    restored (found₁.trans found)
  dsimp only
  split
  · exact Activity.Safe.pure fun c' found _ => ⟨rfl, restored₁ found⟩
  · refine Activity.Safe.update_bind (fun _ _ found => ⟨rfl, restored₁ found⟩)
      fun s c₂ found₂ orderly₂ hs => ?_
    have running : ∀ tx ∈ (c₁.store.transactionsOf task).filter (·.isStale cutoff),
        tx ∈ c₁.store.transactions ∧ tx.status = .running := fun tx htx =>
      ⟨(Store.mem_transactionsOf.mp (List.mem_filter.mp htx).1).1,
        Transaction.running_of_isStale (List.mem_filter.mp htx).2⟩
    have submitted : ∀ {tx : Transaction}, tx.status = .running → tx.status ≠ .created :=
      fun hrunning hcreated => by rw [hrunning] at hcreated; cases hcreated
    obtain ⟨txs, rfl, versions⟩ := orderly₂.updateTransactions (f := Transaction.expired)
      (fun _ => rfl) (fun tx htx => KeptForHolder.submitted found₂ tx (running tx htx).1
        (submitted (running tx htx).2)) hs
    have revised : List.Forall₂ (Transaction.Revised (·.status ≠ .created))
        c₂.store.transactions txs := by
      refine versions.imp fun old new hboth => hboth.imp id ?_
      rintro ⟨hold, rfl⟩
      obtain ⟨hstored, hrunning⟩ := running old hold
      exact ⟨submitted hrunning, Transaction.becomes_expired hrunning,
        Transaction.regular_of_done ((orderly.regular old hstored).hashed.mpr (.inl hrunning)) rfl⟩
    have expired := (restored₁ found₂).withTransactions <| versions.imp fun old new hboth => by
      rcases hboth with rfl | ⟨-, rfl⟩ <;> exact ⟨rfl, rfl⟩
    exact ⟨WithLock.revise revised, orderly₂.revise revised,
      Activity.Safe.pure fun c' found _ => ⟨rfl, expired.keptForHolder found⟩⟩

/-! ### Executions -/

/-- Requesting new inputs touches neither records nor numbers. -/
private theorem safe_redrive (settled : c.Settled) (task : Task) (tx : Transaction) :
    Activity.Safe (ω := ω) i (conduct ω).Restored (do
      if task.isRunning then
        if !(← Activity.view (·.hasPending task.id)) then
          let _ ← Activity.publish .fuzzer task.id
      return tx) true c := by
  have restored : ∀ {c'}, KeptForHolder c c' → c'.Settled := settled.keptForHolder
  have ended : Activity.Safe i (conduct ω).Restored (pure tx) true c :=
    Activity.Safe.pure fun c' found _ => ⟨rfl, restored found⟩
  split
  · refine Activity.Safe.quiet_bind (isQuiet_view _) (fun _ _ found => ⟨rfl, restored found⟩)
      fun pending => ?_
    split
    · exact Activity.Safe.quiet_bind (isQuiet_publish _ _)
        (fun _ _ found => ⟨rfl, restored found⟩) fun _ => ended
    · exact ended
  · exact ended

theorem safe_recordExecution (hash : String) (executed : PcSet) :
    (recordExecution e hash executed).Safe i Unheld false c := by
  refine Activity.Safe.exclusively fun c₀ _ _ settled => ?_
  refine Activity.Safe.transactionWithHash_bind settled
    fun tx c₁ settled₁ hashed hmem regular => ?_
  have restored : ∀ {c'}, KeptForHolder c₁ c' → c'.Settled := settled₁.keptForHolder
  have submitted := regular.submitted hashed
  split
  · exact Activity.Safe.pure fun c' found _ => ⟨rfl, restored found⟩
  next hopen =>
  refine Activity.Safe.query_bind (fun _ _ found => ⟨rfl, restored found⟩)
    fun task c₂ found₂ _ htask => ?_
  refine Activity.Safe.query_bind (fun _ _ found => ⟨rfl, restored (found₂.trans found)⟩)
    fun contract c₃ found₃ _ _ => ?_
  have found₁₃ : KeptForHolder c₁ c₃ := found₂.trans found₃
  refine Activity.Safe.updateTransaction_bind
    (tx.recorded e.config.fuzzing.critical contract task.executed executed)
    (found₁₃.submitted tx hmem submitted) submitted
    (Transaction.becomes_recorded (regular.running hashed hopen) _ _ _ _)
    (Transaction.regular_of_done (hashed ▸ rfl) rfl)
    (fun _ _ found => ⟨rfl, restored (found₁₃.trans found)⟩)
    fun c₄ before after found₄ split => ?_
  have owing := (restored (found₁₃.trans found₄)).owing
    (tx.recorded e.config.fuzzing.critical contract task.executed executed) split
    (regular.quiet hopen).1 rfl
  -- The task is stored, whatever has been done since it was read.
  have stored : ∀ {c'}, KeptForHolder { c₄ with store := c₄.store.withTransactions (before ++
      tx.recorded e.config.fuzzing.critical contract task.executed executed :: after) } c' →
      ∃ t, c'.store.getTask tx.task = .ok t := by
    intro c' found
    have haggregate : c₂.store.aggregate? tx.task = some task.executed :=
      Store.aggregate?_eq_some_iff.mpr ⟨task, Store.getTask_eq_ok_iff.mp htask, rfl⟩
    rw [← found₃.aggregate, ← found₄.aggregate] at haggregate
    obtain ⟨t, ht, -⟩ := Store.aggregate?_eq_some_iff.mp ((found.aggregate _).trans haggregate)
    exact ⟨t, Store.getTask_eq_ok_iff.mpr ht⟩
  refine Activity.Safe.commit_bind (fun failure c₅ found₅ hfail => ?_)
    fun task' s c₅ found₅ orderly₅ hs => ?_
  · obtain ⟨t, ht⟩ := stored found₅
    change c₅.store.mergeExecuted tx.task executed = .error failure at hfail
    rw [Store.mergeExecuted_eq ht] at hfail
    cases hfail
  · obtain ⟨t, ht⟩ := stored found₅
    change c₅.store.mergeExecuted tx.task executed = .ok (task', s) at hs
    rw [Store.mergeExecuted_eq ht] at hs
    obtain ⟨rfl, rfl⟩ := Prod.mk.inj (Except.ok.inj hs)
    have hget := Store.getTask_eq_ok_iff.mp ht
    exact ⟨withLock_mergeExecuted hget, orderly₅.of_eq rfl rfl,
      safe_redrive ((owing.keptForHolder found₅).settled hget) _ _⟩

/-! ### The periodic look at tasks -/

/-- The status of a task may change without the lock. -/
private theorem withoutLock_finish {id : TaskId} {t : Task} (ht : c.store.tasks.get? id = some t) :
    c.WithoutLock { c with store := { c.store with
      tasks := c.store.tasks.insert id { t with status := .done } } } where
  tasks := .insert ht ⟨fun _ => rfl, fun _ h => h⟩
  aggregate := Store.aggregate?_insert ht rfl
  transactions := rfl
  number := rfl

private theorem safe_checkTask (now : Instant) (task : Task) :
    (checkTask e now task).Safe .checker Unheld false c := by
  unfold checkTask
  split
  · refine Activity.Safe.commit_bind (fun _ _ _ _ _ _ => rfl) fun task' s c₁ _ orderly hs => ?_
    cases ht : c₁.store.getTask task.id with
    | error failure =>
      change c₁.store.updateTaskStatus task.id .done = .ok (task', s) at hs
      rw [Store.updateTaskStatus, ht] at hs
      cases hs
    | ok t =>
      rw [Store.updateTaskStatus_eq ht] at hs
      obtain ⟨rfl, rfl⟩ := Prod.mk.inj (Except.ok.inj hs)
      refine ⟨withoutLock_finish (Store.getTask_eq_ok_iff.mp ht), orderly.of_eq rfl rfl, ?_⟩
      exact Activity.Safe.quiet_bind (isQuiet_publish _ _) (fun _ _ _ => rfl)
        fun _ => Activity.Safe.pure fun _ _ _ => rfl
  · refine Activity.Safe.quiet_bind (isQuiet_query _) (fun _ _ _ => rfl) fun contract => ?_
    split
    · exact Activity.Safe.pure fun _ _ _ => rfl
    · refine Activity.Safe.bind (safe_expireStale _ _) (fun _ held _ h _ _ => h)
        fun timedOut held c₁ h => ?_
      obtain rfl : held = false := h
      refine Activity.Safe.quiet_bind (isQuiet_view _) (fun _ _ _ => rfl) fun pending => ?_
      split
      · exact Activity.Safe.pure fun _ _ _ => rfl
      · exact Activity.Safe.quiet_bind (isQuiet_publish _ _) (fun _ _ _ => rfl)
          fun _ => Activity.Safe.pure fun _ _ _ => rfl

private theorem safe_checkEach (now : Instant) (tasks : List Task) :
    (checkEach e now tasks).Safe .checker Unheld false c := by
  induction tasks generalizing c with
  | nil => exact Activity.Safe.pure fun _ _ _ => rfl
  | cons task tasks ih =>
    refine Activity.Safe.bind (safe_checkTask now task) (fun _ held _ h _ _ => h)
      fun outcome held c₁ h => ?_
    obtain rfl : held = false := h
    refine Activity.Safe.bind ih (fun _ held _ h _ _ => h) fun outcomes held c₂ h => ?_
    obtain rfl : held = false := h
    exact Activity.Safe.pure fun _ _ _ => rfl

theorem safe_checkTasks (now : Instant) : (checkTasks e now).Safe .checker Unheld false c :=
  Activity.Safe.quiet_bind (isQuiet_view _) (fun _ _ _ => rfl) fun tasks => safe_checkEach now tasks

end ContractFuzz
