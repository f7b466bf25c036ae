import ContractFuzz.Proofs.Campaign.LifeCycle
/-!
# Records under their own ids

Nothing stops those who register tasks from using ids a second time, so that a task may lose its
contract to another one. Still, whatever is done, tasks and contracts are kept under their own ids,
and every transaction has a number of its own that was handed out before. This is so after every
activity, since it is so after each of its steps.

## Main definitions

* `Campaign.Filed` : records are kept under their own ids.
* `Activity.Files` : an activity that leaves them so.

## Main results

* `Activity.Files.bind`, `Activity.Files.commit` and others : one rule for each kind of step.
* `Campaign.filed_performAll` : records are filed after any operations.
-/

namespace ContractFuzz

open Activity

variable {ω α β : Type}

/-! ### Filed records -/

namespace Campaign

/-- Tasks and contracts are kept under their own ids, and transactions have distinct numbers that
were handed out. -/
structure Filed (c : Campaign ω) : Prop where
  taskNamed : ∀ {id t}, c.store.tasks.get? id = some t → t.id = id
  contractNamed : ∀ {i k}, c.store.contracts.get? i = some k → k.id = i
  distinct : (c.store.transactions.map (·.id)).Nodup
  numbered : ∀ tx ∈ c.store.transactions, tx.id.number < c.nextTransaction

variable {c c' : Campaign ω}

theorem filed_of_sound (h : c.ledger.Sound) : c.Filed :=
  ⟨h.taskNamed, h.contractNamed, h.distinct, h.numbered⟩

namespace Filed

theorem of_eq (h : c.Filed) (tasks : c'.store.tasks = c.store.tasks)
    (contracts : c'.store.contracts = c.store.contracts)
    (transactions : c'.store.transactions = c.store.transactions)
    (number : c'.nextTransaction = c.nextTransaction) : c'.Filed where
  taskNamed ht := h.taskNamed (tasks ▸ ht)
  contractNamed hk := h.contractNamed (contracts ▸ hk)
  distinct := transactions ▸ h.distinct
  numbered tx htx := number ▸ h.numbered tx (transactions ▸ htx)

theorem id_eq_of_getTask (h : c.Filed) {id : TaskId} {t : Task} (ht : c.store.getTask id = .ok t) :
    t.id = id :=
  h.taskNamed (Store.getTask_eq_ok_iff.mp ht)

/-- Any task may be stored under its id. -/
theorem insertTask (h : c.Filed) {id : TaskId} {t : Task} (hid : t.id = id) :
    Filed { c with store := { c.store with tasks := c.store.tasks.insert id t } } where
  taskNamed ht := by
    rcases SortedMap.get?_insert_eq_some_iff.mp ht with ⟨rfl, rfl⟩ | ⟨-, ht⟩
    · exact hid
    · exact h.taskNamed ht
  contractNamed := h.contractNamed
  distinct := h.distinct
  numbered := h.numbered

/-- Any contract may be stored. -/
theorem createContract (h : c.Filed) (k : Contract) :
    Filed { c with store := c.store.createContract k } where
  taskNamed := h.taskNamed
  contractNamed hk := by
    rcases SortedMap.get?_insert_eq_some_iff.mp hk with ⟨rfl, rfl⟩ | ⟨-, hk⟩
    · rfl
    · exact h.contractNamed hk
  distinct := h.distinct
  numbered := h.numbered

/-- The contract that is found for a task is stored under its id. -/
theorem getContract_of_contractOfTask (h : c.Filed) {id : TaskId} {k : Contract}
    (hk : c.store.contractOfTask id = .ok k) : c.store.getContract k.id = .ok k := by
  obtain ⟨⟨i, hi⟩, -⟩ := Store.contractOfTask_eq_ok hk
  exact Store.getContract_eq_ok_iff.mpr (h.contractNamed hi ▸ hi)

/-- Transactions may be replaced one by one, each by one with its id. -/
theorem versions (h : c.Filed) {txs : List Transaction}
    (same : List.Forall₂ (fun old new => new.id = old.id) c.store.transactions txs) :
    Filed { c with store := { c.store with transactions := txs } } where
  taskNamed := h.taskNamed
  contractNamed := h.contractNamed
  distinct := by
    have hids : txs.map (·.id) = c.store.transactions.map (·.id) := by
      refine List.forall₂_eq_eq_eq ▸ (List.forall₂_map_left_iff.mpr
        (List.forall₂_map_right_iff.mpr ?_))
      exact same.flip
    exact hids ▸ h.distinct
  numbered new hnew := by
    obtain ⟨old, hold, hid⟩ := (exists_mem_of_forall₂ same).2 new hnew
    exact hid ▸ h.numbered old hold

/-- Transactions may be added under the next numbers. -/
theorem append (h : c.Filed) {txs : List Transaction}
    (numbers : txs.map (·.id.number) = List.range' c.nextTransaction txs.length) :
    Filed { c with
      store := c.store.createTransactions txs
      nextTransaction := c.nextTransaction + txs.length } where
  taskNamed := h.taskNamed
  contractNamed := h.contractNamed
  distinct := RecordId.nodup_append h.distinct h.numbered numbers
  numbered tx htx := by
    rcases List.mem_append.mp htx with htx | htx
    · exact Nat.lt_of_lt_of_le (h.numbered tx htx) (Nat.le_add_right _ _)
    · exact (RecordId.number_of_mem numbers htx).2

end Filed

end Campaign

/-! ### Activities that leave records filed -/

/-- An activity that leaves records filed, whether it succeeds or fails. -/
def Activity.Files (p : Activity ω α) : Prop := ∀ c : Campaign ω, c.Filed → (p.perform c).2.Filed

namespace Activity.Files

/-- A result alone changes nothing. -/
theorem pure (a : α) : Files (Pure.pure a : Activity ω α) := fun _ h => h

theorem bind {p : Activity ω α} {k : α → Activity ω β} (first : p.Files)
    (next : ∀ a, (k a).Files) : (p >>= k).Files := by
  intro c h
  have hfirst := first c h
  rcases hp : p.perform c with ⟨r, c'⟩
  rw [hp] at hfirst
  cases r with
  | ok a => exact (perform_bind_of_ok hp).symm ▸ next a c' hfirst
  | error failure => exact (perform_bind_of_error hp).symm ▸ hfirst

/-- A step that changes neither records nor numbers of transactions. -/
theorem quiet {p : Activity ω α} (store : ∀ c, (p.perform c).2.store = c.store)
    (number : ∀ c, (p.perform c).2.nextTransaction = c.nextTransaction) : p.Files :=
  fun c h => h.of_eq (by rw [store]) (by rw [store]) (by rw [store]) (number c)

theorem ofExcept (r : Except Failure α) : Files (Activity.ofExcept r : Activity ω α) :=
  fun _ h => h

theorem query (f : Store → Except Failure α) : Files (Activity.query f : Activity ω α) :=
  fun _ h => h

theorem view (f : Store → α) : Files (Activity.view f : Activity ω α) := fun _ h => h

theorem clock (e : Engine ω) : (Activity.clock e).Files := fun _ h => h

theorem now (e : Engine ω) : (Activity.now e).Files := fun _ h => h

theorem publish (l : Listener) (task : TaskId) : Files (Activity.publish l task : Activity ω Nat) :=
  .quiet (fun _ => by cases l <;> rfl) fun _ => by cases l <;> rfl

theorem warn (w : Warning) : Files (Activity.warn w : Activity ω Unit) :=
  .quiet (fun _ => rfl) fun _ => rfl

theorem newFunctions (count : Nat) : Files (Activity.newFunctions count : Activity ω Nat) :=
  .quiet (fun _ => rfl) fun _ => rfl

theorem external (service : ExternalService) (ask : ω → Except String α × ω) :
    Files (Activity.external service ask) :=
  .quiet (fun _ => rfl) fun _ => rfl

theorem drawAsDeployer (d : TryDraw α) : Files (Activity.drawAsDeployer d : Activity ω α) :=
  .quiet (fun _ => rfl) fun _ => rfl

theorem drawAsFuzzer (d : Store → TryDraw α) : Files (Activity.drawAsFuzzer d : Activity ω α) :=
  .quiet (fun _ => rfl) fun _ => rfl

/-- Nothing but the world outside takes part. -/
theorem atomically (f : ω → α × ω) : Files (Activity.atomically fun c : Campaign ω =>
    ((f c.world).1, { c with world := (f c.world).2 })) :=
  .quiet (fun _ => rfl) fun _ => rfl

/-- A change of the records that leaves them filed. -/
theorem commit {f : Store → Except Failure (α × Store)}
    (h : ∀ {c : Campaign ω} {a s}, c.Filed → f c.store = .ok (a, s) →
      Campaign.Filed { c with store := s }) : Files (Activity.commit f : Activity ω α) := by
  intro c hfiled
  rw [perform_commit]
  cases hf : f c.store with
  | ok result => exact h hfiled hf
  | error failure => exact hfiled

theorem update {f : Store → Except Failure Store}
    (h : ∀ {c : Campaign ω} {s}, c.Filed → f c.store = .ok s →
      Campaign.Filed { c with store := s }) : Files (Activity.update f : Activity ω Unit) := by
  intro c hfiled
  rw [perform_update]
  cases hf : f c.store with
  | ok s => exact h hfiled hf
  | error failure => exact hfiled

theorem exclusively {p : Activity ω α} (h : p.Files) : (Activity.exclusively p).Files :=
  fun c hfiled => (perform_exclusively c p).symm ▸ h c hfiled

theorem ite {p q : Activity ω α} {b : Prop} [Decidable b] (hp : p.Files) (hq : q.Files) :
    Files (if b then p else q) := by
  split
  · exact hp
  · exact hq

theorem forM_warn (warnings : List Warning) :
    Files (warnings.forM Activity.warn : Activity ω Unit) :=
  fun c h => (perform_forM_warn c warnings).symm ▸ h.of_eq rfl rfl rfl rfl

/-! ### Changes of the records -/

theorem updateTask (t : Task) : Files (Activity.update (·.updateTask t) : Activity ω Unit) :=
  update fun h hs => Store.eq_of_updateTask hs ▸ h.insertTask rfl

theorem updateTaskStatus (id : TaskId) (status : TaskStatus) :
    Files (Activity.commit (·.updateTaskStatus id status) : Activity ω Task) := by
  refine commit fun h hs => ?_
  obtain ⟨t, ht, rfl, rfl⟩ := Store.eq_of_updateTaskStatus hs
  have hid : t.id = id := h.id_eq_of_getTask ht
  exact h.insertTask hid

theorem mergeExecuted (id : TaskId) (executed : PcSet) :
    Files (Activity.commit (·.mergeExecuted id executed) : Activity ω Task) := by
  refine commit fun h hs => ?_
  obtain ⟨t, ht, rfl, rfl⟩ := Store.eq_of_mergeExecuted hs
  have hid : t.id = id := h.id_eq_of_getTask ht
  exact h.insertTask hid

theorem updateContract (k : Contract) :
    Files (Activity.update (·.updateContract k) : Activity ω Unit) :=
  update fun h hs => Store.eq_of_updateContract hs ▸ h.createContract k

theorem updateTransaction (new : Transaction) :
    Files (Activity.update (·.updateTransaction new) : Activity ω Unit) := by
  refine update fun {c s} h hs => ?_
  refine Store.eq_of_updateTransaction hs ▸
    h.versions ((forall₂_replaceLast new c.store.transactions).imp ?_)
  rintro old _ (rfl | ⟨hid, rfl⟩)
  · rfl
  · exact hid.symm

theorem updateTransactions (news : List Transaction) :
    Files (Activity.update (·.updateTransactions news) : Activity ω Unit) := by
  refine update fun {c s} h hs => Store.eq_of_updateTransactions hs ▸ h.versions ?_
  have replaced := forall₂_foldl_replaceLast (f := id) (fun _ => rfl) news c.store.transactions
  rw [List.map_id] at replaced
  refine replaced.imp ?_
  rintro old _ (rfl | ⟨new, -, hid, rfl⟩)
  · rfl
  · exact hid

/-- Transactions are stored under numbers that were handed out for them right before. -/
theorem newTransactions {count : Nat} {txs : Nat → List Transaction} {k : Nat → Activity ω β}
    (length : ∀ first, (txs first).length = count)
    (numbers : ∀ first, (txs first).map (·.id.number) = List.range' first count)
    (next : ∀ first, (k first).Files) :
    Files (do
      let first ← Activity.newTransactions count
      Activity.change (·.createTransactions (txs first))
      k first) := by
  intro c h
  rw [perform_bind_of_ok (perform_newTransactions _ _), perform_bind_of_ok (perform_change _ _)]
  refine next _ _ ?_
  have happend := h.append ((numbers c.nextTransaction).trans
    (congrArg (List.range' _) (length _).symm))
  rw [length] at happend
  exact happend

end Activity.Files

/-! ### Operations -/

theorem files_registerTask (task : Task) (contract : Contract) :
    (registerTask task contract : Activity ω TaskId).Files := by
  refine .bind (.ofExcept _) fun definition => .bind (.newFunctions _) fun first =>
    .bind (fun c h => h.insertTask rfl) fun _ => ?_
  exact .bind (fun c h => h.createContract _) fun _ =>
    .bind (fun c h => h.of_eq rfl rfl rfl rfl) fun _ => .pure _

theorem files_startTask (id : TaskId) (now : Instant) :
    (startTask id now : Activity ω Unit).Files := by
  refine .bind (.query _) fun task => .ite ?_ (.warn _)
  exact .bind (.updateTask _) fun _ => .bind (.publish _ _) fun _ => .pure _

theorem files_expireStale (task : TaskId) (cutoff : Instant) :
    (expireStale task cutoff : Activity ω (List TransactionId)).Files := by
  refine .exclusively (.bind (.view _) fun txs => .ite (.pure _) ?_)
  exact .bind (.updateTransactions _) fun _ => .pure _

variable {e : Engine ω}

theorem files_checkTask (now : Instant) (task : Task) : (checkTask e now task).Files := by
  refine .ite (.bind (.updateTaskStatus _ _) fun _ => .bind (.publish _ _) fun _ => .pure _) ?_
  refine .bind (.query _) fun contract => .ite (.pure _) ?_
  refine .bind (files_expireStale _ _) fun timedOut => .bind (.view _) fun pending => ?_
  exact .ite (.pure _) (.bind (.publish _ _) fun _ => .pure _)

theorem files_checkEach (now : Instant) (tasks : List Task) : (checkEach e now tasks).Files := by
  induction tasks with
  | nil => exact .pure _
  | cons task rest ih =>
    exact .bind (files_checkTask now task) fun _ => .bind ih fun _ => .pure _

theorem files_checkTasks (now : Instant) : (checkTasks e now).Files :=
  .bind (.view _) fun tasks => files_checkEach now tasks

theorem files_recordExecution (hash : String) (executed : PcSet) :
    (recordExecution e hash executed).Files := by
  refine .exclusively (.bind (.query _) fun tx => .ite (.pure _) ?_)
  refine .bind (.query _) fun before => .bind (.query _) fun contract => ?_
  refine .bind (.updateTransaction _) fun _ => .bind (.mergeExecuted _ _) fun task => ?_
  refine .ite (.bind (.view _) fun pending => .ite ?_ (.pure _)) (.pure _)
  exact .bind (.publish _ _) fun _ => .pure _

theorem files_recordWeaknesses (hash : String) (snapshot : Snapshot) :
    (recordWeaknesses e hash snapshot).Files := by
  refine .exclusively (.bind (.query _) fun tx => .ite ?_ (.pure _))
  exact .bind (.updateTransaction _) fun _ => .pure _

theorem files_analyze (k : Contract) : (analyze e k).Files := by
  refine .ite (.pure _) (.bind (.external _ _) fun blocks => ?_)
  exact .bind (.ofExcept _) fun _ => .pure _

theorem files_deployTask (id : TaskId) : (deployTask e id).Files := by
  refine .bind (.query _) fun task => .bind (.query _) fun contract => .bind (.query _)
    fun constructor => .bind (.ofExcept _) fun definition => ?_
  refine .bind (.drawAsDeployer _) fun drawn => .bind (.external _ _) fun deployment => ?_
  refine .bind (.now e) fun now => ?_
  have length : ∀ number : Nat, [Transaction.deployment ⟨number⟩ task.id constructor.id drawn.2 now
      deployment.hash].length = 1 := fun _ => rfl
  refine .newTransactions length (fun _ => rfl) fun number => ?_
  exact .bind (files_analyze _) fun k => .bind (.updateContract k) fun _ =>
    .bind (.publish _ _) fun _ => .pure _

theorem files_submitBatch (contract : Contract) (task : TaskId) (function : ContractFunction)
    (clock : Nat → Instant) (generated : List (Seed × List Value)) :
    (submitBatch e contract task function clock generated).Files := by
  have length : ∀ first, (newBatch first task function.id clock (generated.map (·.1))).length =
      generated.length := fun _ => by
    rw [Ledger.length_newBatch, List.length_map]
  refine .newTransactions length (fun _ => ?_) fun first => ?_
  · rw [Ledger.numbers_newBatch, List.length_map]
  · exact .bind (.atomically _) fun outcome => .bind (.forM_warn _) fun _ => .updateTransactions _

theorem files_submitInputs (id : TaskId) : (submitInputs e id).Files := by
  refine .bind (.query _) fun task => .ite ?_ (.pure _)
  refine .bind (.query _) fun contract => .bind (.ofExcept _) fun definition => .bind (.view _)
    fun functions => .bind (.drawAsFuzzer _) fun function => ?_
  exact .bind (.ofExcept _) fun method => .bind (.clock e) fun clock => .bind (.drawAsFuzzer _)
    fun generated => files_submitBatch contract task.id function clock generated

theorem files_reportTask (id : TaskId) : (reportTask e id).Files :=
  .bind (.query _) fun _ => .bind (.query _) fun _ => .bind (.view _) fun _ => .external _ _

theorem files_handle (l : Listener) (task : TaskId) : (handle e l task).Files := by
  cases l with
  | deployer => exact files_deployTask task
  | fuzzer => exact files_submitInputs task
  | reporter => exact files_reportTask task

namespace Campaign

variable {c : Campaign ω}

theorem Filed.of_ledger {c' : Campaign ω} (h : c.Filed) (same : c'.ledger = c.ledger) :
    c'.Filed :=
  h.of_eq (congrArg (·.store.tasks) same) (congrArg (·.store.contracts) same)
    (congrArg (·.store.transactions) same) (congrArg Ledger.nextTransaction same)

theorem Filed.deliver (h : c.Filed) (l : Listener) :
    ((ContractFuzz.deliver e l).run c).2.Filed := by
  rcases ledger_deliver (e := e) (c := c) l with ⟨task, -, heq⟩ | heq
  · refine Filed.of_ledger ?_ heq
    exact files_handle l task _ (h.of_ledger (c.ledger_setTopic_receive l 0))
  · exact h.of_ledger heq

theorem Filed.perform (h : c.Filed) (op : Operation ω) : (op.perform e c).Filed := by
  cases op with
  | register task contract => exact files_registerTask task contract c h
  | start task now => exact files_startTask task now c h
  | check now => exact files_checkTasks now c h
  | deliver l => exact h.deliver l
  | recordExecution hash executed => exact files_recordExecution hash executed c h
  | recordWeaknesses hash snapshot => exact files_recordWeaknesses hash snapshot c h
  | outside world => exact h.of_eq rfl rfl rfl rfl

/-- After any operations, with new ids or old ones, records are filed. -/
theorem filed_performAll (h : c.Filed) (ops : List (Operation ω)) :
    (Operation.performAll e ops c).Filed := by
  induction ops generalizing c with
  | nil => exact h
  | cons op ops ih => exact ih (h.perform op)

theorem filed_initial (world : ω) (deployer fuzzer : Source) :
    (initial world deployer fuzzer).Filed :=
  filed_of_sound (sound_initial world deployer fuzzer)

end Campaign

end ContractFuzz
