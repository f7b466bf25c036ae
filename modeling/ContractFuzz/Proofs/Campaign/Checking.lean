import ContractFuzz.Proofs.Campaign.Recording
/-!
# What starting and checking tasks does

All outcomes of a look at one running task, and the moves that a look at all of them amounts to.

## Main definitions

* `TaskCheck` : the outcomes of a look at one task.

## Main results

* `ledger_registerTask`, `ledger_startTask` : what registration and start do.
* `checkTask_outcome` : there are no other outcomes.
* `moves_registerTask`, `moves_startTask`, `moves_checkTasks` : the moves that are made.
-/

namespace ContractFuzz

open Activity

variable {ω : Type} {e : Engine ω} {c : Campaign ω} {Accepted : Task → Contract → Prop}

/-! ### Registration and start -/

/-- A registration whose interface definition cannot be read changes nothing. -/
theorem perform_registerTask_of_error {task : Task} {contract : Contract} {failure : Failure}
    (h : contract.definition = .error failure) :
    (registerTask task contract).perform c = (.error failure, c) := by
  unfold registerTask
  exact perform_ofExcept_bind_of_error h

/-- All records of a registration are stored. -/
theorem perform_registerTask_of_ok {task : Task} {contract : Contract} {definition : AbiDefinition}
    (h : contract.definition = .ok definition) :
    (registerTask task contract).perform c = (.ok task.id, { c with
      store := (c.ledger.register task contract definition).store
      nextFunction := c.nextFunction + (definition.methods.size + 1) }) := by
  -- The task of the contract does not matter to its interface definition.
  have hbound : Contract.definition { contract with task := task.id } = .ok definition := h
  unfold registerTask
  dsimp only
  rw [perform_ofExcept_bind_of_ok hbound]
  rfl

/-- A registration fails and changes nothing, or the task is registered. -/
theorem ledger_registerTask (task : Task) (contract : Contract) :
    ((registerTask task contract).perform c).2.ledger = c.ledger ∨
      ∃ definition, contract.definition = .ok definition ∧
        ((registerTask task contract).perform c).2.ledger =
          c.ledger.register task contract definition := by
  cases hdefinition : contract.definition with
  | error failure => exact .inl (by rw [perform_registerTask_of_error hdefinition])
  | ok definition =>
    exact .inr ⟨definition, rfl, by rw [perform_registerTask_of_ok hdefinition]; rfl⟩

theorem moves_registerTask {task : Task} {contract : Contract}
    (new : c.ledger.Registrable task contract) (accepted : Accepted task contract) :
    Ledger.Moves e.config Accepted c.ledger ((registerTask task contract).perform c).2.ledger := by
  rcases ledger_registerTask (c := c) task contract with heq | ⟨definition, hdefinition, heq⟩
  · exact heq ▸ .refl
  · exact heq ▸ .single (.register new accepted hdefinition)

/-- A task that was created before is started. -/
theorem perform_startTask_of_created {task : Task} (htask : c.store.getTask task.id = .ok task)
    (created : task.status = .created) (now : Instant) :
    (startTask task.id now).perform c = (.ok (), Campaign.publish
      { c with store := c.store.createTask (task.started now) } .deployer task.id) := by
  have hupdate : c.store.updateTask (task.started now) = .ok _ := Store.updateTask_eq htask
  unfold startTask
  rw [perform_query_bind_of_ok htask, if_pos created,
    perform_bind_of_ok (perform_update_of_ok hupdate)]
  rfl

/-- A task that was started before is not started again, and only the log tells. -/
theorem perform_startTask_of_started {id : TaskId} {task : Task}
    (htask : c.store.getTask id = .ok task) (started : task.status ≠ .created) (now : Instant) :
    (startTask id now).perform c = (.ok (), { c with log := c.log ++ [.alreadyStarted] }) := by
  unfold startTask
  rw [perform_query_bind_of_ok htask, if_neg started, perform_warn]

/-- Nothing is changed, or a task that was created before is started. -/
theorem ledger_startTask_of_named (named : ∀ {id t}, c.store.tasks.get? id = some t → t.id = id)
    (id : TaskId) (now : Instant) :
    ((startTask id now).perform c).2.ledger = c.ledger ∨
      ∃ task, task.id = id ∧ c.store.getTask task.id = .ok task ∧ task.status = .created ∧
        ((startTask id now).perform c).2.ledger =
          ({ c.ledger with store := c.store.createTask (task.started now) }.publish .deployer
            task.id) := by
  cases htask : c.store.getTask id with
  | error failure =>
    unfold startTask
    exact .inl (by rw [perform_query_bind_of_error htask])
  | ok task =>
    obtain rfl : task.id = id := named (Store.getTask_eq_ok_iff.mp htask)
    by_cases created : task.status = .created
    · refine .inr ⟨task, rfl, htask, created, ?_⟩
      rw [perform_startTask_of_created htask created]
      exact Campaign.ledger_publish
        { c with store := c.store.createTask (task.started now) } .deployer task.id
    · rw [perform_startTask_of_started htask created]
      exact .inl rfl

theorem ledger_startTask (h : c.ledger.Sound) (id : TaskId) (now : Instant) :
    ((startTask id now).perform c).2.ledger = c.ledger ∨
      ∃ task, c.store.getTask task.id = .ok task ∧ task.status = .created ∧
        ((startTask id now).perform c).2.ledger =
          ({ c.ledger with store := c.store.createTask (task.started now) }.publish .deployer
            task.id) :=
  (ledger_startTask_of_named h.taskNamed id now).imp_right fun ⟨task, _, started⟩ => ⟨task, started⟩

theorem moves_startTask (h : c.ledger.Sound) (id : TaskId) (now : Instant) :
    Ledger.Moves e.config Accepted c.ledger ((startTask id now).perform c).2.ledger := by
  rcases ledger_startTask h id now with heq | ⟨task, htask, created, heq⟩
  · exact heq ▸ .refl
  · exact heq ▸ .single (.start now htask created)

/-! ### A look at one task -/

/-- What a look at one running task leads to. -/
inductive TaskCheck (e : Engine ω) (now : Instant) (task : Task) (c : Campaign ω) :
    Except Failure CheckOutcome × Campaign ω → Prop
  | finished (expired : task.isExpired now = true) :
      TaskCheck e now task c (.ok ⟨[task.id], [], []⟩,
        Campaign.publish { c with store := c.store.createTask task.finished } .reporter task.id)
  | deploying {contract : Contract} (unexpired : task.isExpired now = false)
      (hcontract : c.store.contractOfTask task.id = .ok contract)
      (unanalyzed : contract.isAnalyzed = false) : TaskCheck e now task c (.ok .empty, c)
  | waiting {contract : Contract} (unexpired : task.isExpired now = false)
      (hcontract : c.store.contractOfTask task.id = .ok contract)
      (analyzed : contract.isAnalyzed = true)
      (pending : (c.expired task.id (now.cutoff e.config.timeout)).store.hasPending task.id =
        true) :
      TaskCheck e now task c (.ok ⟨[], ((c.store.transactionsOf task.id).filter
          (·.isStale (now.cutoff e.config.timeout))).map (·.id), []⟩,
        c.expired task.id (now.cutoff e.config.timeout))
  | redriven {contract : Contract} (unexpired : task.isExpired now = false)
      (hcontract : c.store.contractOfTask task.id = .ok contract)
      (analyzed : contract.isAnalyzed = true)
      (idle : (c.expired task.id (now.cutoff e.config.timeout)).store.hasPending task.id =
        false) :
      TaskCheck e now task c (.ok ⟨[], ((c.store.transactionsOf task.id).filter
          (·.isStale (now.cutoff e.config.timeout))).map (·.id), [task.id]⟩,
        (c.expired task.id (now.cutoff e.config.timeout)).publish .fuzzer task.id)

/-- A look at a stored task that has a contract, or whose time is over, leads to one of the
outcomes. -/
theorem taskCheck_perform (distinct : (c.store.transactions.map (·.id)).Nodup) {task : Task}
    (now : Instant) (htask : c.store.getTask task.id = .ok task)
    (hcontract : task.isExpired now = false →
      ∃ contract, c.store.contractOfTask task.id = .ok contract) :
    TaskCheck e now task c ((checkTask e now task).perform c) := by
  unfold checkTask
  cases hexpired : task.isExpired now with
  | true =>
    have hstatus : c.store.updateTaskStatus task.id .done =
        .ok (task.finished, c.store.createTask task.finished) := Store.updateTaskStatus_eq htask
    rw [if_pos rfl, perform_bind_of_ok (perform_commit_of_ok hstatus)]
    exact .finished hexpired
  | false =>
    obtain ⟨contract, hcontract⟩ := hcontract hexpired
    rw [if_neg Bool.false_ne_true, perform_query_bind_of_ok hcontract]
    cases hanalyzed : contract.isAnalyzed with
    | false => exact .deploying hexpired hcontract hanalyzed
    | true =>
      rw [Bool.not_true, if_neg Bool.false_ne_true,
        perform_bind_of_ok (perform_expireStale distinct task.id _), perform_view_bind]
      cases hpending : (c.expired task.id (now.cutoff e.config.timeout)).store.hasPending
          task.id with
      | true => exact .waiting hexpired hcontract hanalyzed hpending
      | false => exact .redriven hexpired hcontract hanalyzed hpending

/-- Whatever a look at a stored task leads to is one of the outcomes; it does not fail. -/
theorem checkTask_outcome (h : c.ledger.Sound) {task : Task} (now : Instant)
    (htask : c.store.getTask task.id = .ok task) :
    TaskCheck e now task c ((checkTask e now task).perform c) :=
  taskCheck_perform h.distinct now htask fun _ => h.exists_contractOfTask htask

/-- What a look at one task does to the ledger. Other tasks stay as they are. -/
theorem moves_of_taskCheck (Accepted : Task → Contract → Prop) {now : Instant} {task : Task}
    {r : Except Failure CheckOutcome} {c' : Campaign ω}
    (htask : c.store.getTask task.id = .ok task) (running : task.isRunning = true)
    (check : TaskCheck e now task c (r, c')) :
    Ledger.Moves e.config Accepted c.ledger c'.ledger ∧ (∃ outcome, r = .ok outcome) ∧
      ∀ id ≠ task.id, c'.store.getTask id = c.store.getTask id := by
  cases check with
  | finished expired =>
    refine ⟨.single ?_, ⟨_, rfl⟩, fun id hid => ?_⟩
    · rw [Campaign.ledger_publish]
      exact .finish htask running expired
    · exact congrArg (orMissing _) (SortedMap.get?_insert_of_ne hid)
  | deploying unexpired hcontract unanalyzed => exact ⟨.refl, ⟨_, rfl⟩, fun _ _ => rfl⟩
  | waiting unexpired hcontract analyzed pending =>
    exact ⟨.single (.expire _ _), ⟨_, rfl⟩, fun _ _ => rfl⟩
  | redriven unexpired hcontract analyzed idle =>
    refine ⟨.tail (.single (.expire task.id (now.cutoff e.config.timeout))) ?_, ⟨_, rfl⟩,
      fun _ _ => rfl⟩
    rw [Campaign.ledger_publish]
    exact .request hcontract analyzed

/-! ### A look at all running tasks -/

/-- The other running tasks are still as they were after a look at one of them. -/
theorem stored_of_kept {task : Task} {rest : List Task} {c' : Campaign ω}
    (stored : ∀ other ∈ task :: rest,
      c.store.getTask other.id = .ok other ∧ other.isRunning = true)
    (distinct : task.id ∉ rest.map (·.id))
    (kept : ∀ id ≠ task.id, c'.store.getTask id = c.store.getTask id) :
    ∀ other ∈ rest, c'.store.getTask other.id = .ok other ∧ other.isRunning = true := by
  intro other hother
  obtain ⟨hget, hrunning⟩ := stored other (List.mem_cons_of_mem _ hother)
  refine ⟨?_, hrunning⟩
  rw [kept other.id, hget]
  exact fun heq => distinct (List.mem_map.mpr ⟨other, hother, heq⟩)

/-- Tasks that are looked at one after the other are still as they were when it is their turn. -/
theorem moves_checkEach (h : c.ledger.Sound) (now : Instant) {tasks : List Task}
    (stored : ∀ task ∈ tasks, c.store.getTask task.id = .ok task ∧ task.isRunning = true)
    (distinct : (tasks.map (·.id)).Nodup) :
    Ledger.Moves e.config Accepted c.ledger ((checkEach e now tasks).perform c).2.ledger := by
  induction tasks generalizing c with
  | nil => exact .refl
  | cons task rest ih =>
    obtain ⟨htask, running⟩ := stored task List.mem_cons_self
    rw [List.map_cons, List.nodup_cons] at distinct
    have hcheck := checkTask_outcome (e := e) h now htask
    rcases hresult : (checkTask e now task).perform c with ⟨r, c'⟩
    rw [hresult] at hcheck
    obtain ⟨hmoves, ⟨outcome, rfl⟩, hkept⟩ :=
      moves_of_taskCheck Accepted htask running hcheck
    rw [checkEach, perform_bind_of_ok hresult]
    have later := stored_of_kept stored distinct.1 hkept
    have hrest := ih (hmoves.sound h) later distinct.2
    refine hmoves.trans ?_
    rwa [perform_bind_pure_snd]

theorem moves_checkTasks (h : c.ledger.Sound) (now : Instant) :
    Ledger.Moves e.config Accepted c.ledger ((checkTasks e now).perform c).2.ledger := by
  unfold checkTasks
  rw [perform_view_bind]
  exact moves_checkEach h now (fun task htask => (Store.mem_runningTasks_iff h.taskNamed).mp htask)
    (Store.nodup_runningTasks h.taskNamed)

end ContractFuzz
