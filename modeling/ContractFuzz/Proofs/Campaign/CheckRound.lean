import ContractFuzz.Proofs.Campaign.Filing
/-!
# Looks at tasks, one after the other

A look at running tasks tells them apart: those whose time is over are finished; of the others that
are being tested, the transactions that have waited too long are given up, and those tasks that then
wait for nothing get a request for inputs. The tasks do not get into each other's way, although
each of them is looked at in the state that those before it have left.

## Main definitions

* `Task.IsDue`, `Store.UnderWay` : tasks to finish, and tasks that are being tested.
* `Transaction.givenUp` : transactions of some tasks are given up.
* `Round` : what looking at a list of tasks has done.
* `RoundOutcome` : what it leads to, also if it fails.

## Main results

* `Round.single`, `Round.append` : one look, and one after the other.
* `checkEach_outcome` : looks at stored tasks only fail for want of a contract.
-/

namespace ContractFuzz

open Activity

/-! ### Tasks to finish and tasks being tested -/

/-- The task is running and its time is over. -/
def Task.IsDue (t : Task) (now : Instant) : Prop :=
  t.status = .running ∧ ∃ expiration, t.expiration = some expiration ∧ expiration ≤ now

/-- The task is being tested: it runs, its time is not over, and its contract is analyzed. -/
def Store.UnderWay (s : Store) (now : Instant) (id : TaskId) : Prop :=
  ∃ t k, s.getTask id = .ok t ∧ t.status = .running ∧ ¬ t.IsDue now ∧
    s.contractOfTask id = .ok k ∧ k.isAnalyzed = true

theorem Task.isRunning_iff {t : Task} : t.isRunning = true ↔ t.status = .running := beq_iff_eq

theorem Task.isExpired_iff {t : Task} {now : Instant} : t.isExpired now = true ↔
    ∃ expiration, t.expiration = some expiration ∧ expiration ≤ now := by
  rw [isExpired, Option.any_eq_true]
  simp only [decide_eq_true_eq]

/-- Whether a running task is being tested. -/
def Store.isTested (s : Store) (now : Instant) (t : Task) : Bool :=
  !t.isExpired now && (s.contractOfTask t.id).toOption.any Contract.isAnalyzed

/-- Which tasks are being tested depends on the contracts alone. -/
theorem Store.isTested_congr {s s' : Store} (same : s'.contracts = s.contracts) (now : Instant) :
    s'.isTested now = s.isTested now := by
  unfold isTested contractOfTask
  rw [same]

theorem Store.isTested_of_isExpired {s : Store} {now : Instant} {t : Task}
    (h : t.isExpired now = true) : s.isTested now t = false := by
  rw [isTested, h, Bool.not_true, Bool.false_and]

theorem Store.isTested_eq {s : Store} {now : Instant} {t : Task} {k : Contract}
    (unexpired : t.isExpired now = false) (hcontract : s.contractOfTask t.id = .ok k) :
    s.isTested now t = k.isAnalyzed := by
  rw [isTested, unexpired, hcontract, Bool.not_false, Bool.true_and]
  rfl

theorem Store.underWay_iff {s : Store} {now : Instant} {id : TaskId} :
    s.UnderWay now id ↔ ∃ t, s.getTask id = .ok t ∧ t.isRunning = true ∧
      t.isExpired now = false ∧
      ∃ k, s.contractOfTask id = .ok k ∧ k.isAnalyzed = true := by
  constructor
  · rintro ⟨t, k, ht, running, hdue, hk, analyzed⟩
    refine ⟨t, ht, Task.isRunning_iff.mpr running, ?_, k, hk, analyzed⟩
    rw [← Bool.not_eq_true, Task.isExpired_iff]
    exact fun expired => hdue ⟨running, expired⟩
  · rintro ⟨t, ht, running, unexpired, k, hk, analyzed⟩
    refine ⟨t, k, ht, Task.isRunning_iff.mp running, fun hdue => ?_, hk, analyzed⟩
    rw [Task.isExpired_iff.mpr hdue.2] at unexpired
    cases unexpired

/-! ### Giving up -/

namespace Transaction

/-- The transaction once those of some tasks that were created until `cutoff` are given up. -/
def givenUp (tasks : List TaskId) (cutoff : Instant) (tx : Transaction) : Transaction :=
  if tx.task ∈ tasks ∧ tx.isStale cutoff = true then tx.expired else tx

variable {tasks tasks' : List TaskId} {cutoff : Instant} {tx : Transaction}

@[simp] theorem isStale_expired : tx.expired.isStale cutoff = false := rfl

@[simp] theorem map_givenUp_nil (txs : List Transaction) : txs.map (givenUp [] cutoff) = txs :=
  (List.map_congr_left fun _ _ => if_neg fun h => by cases h.1).trans (List.map_id _)

theorem givenUp_of_not_mem (h : tx.task ∉ tasks) : tx.givenUp tasks cutoff = tx :=
  if_neg fun stale => h stale.1

theorem givenUp_of_isStale (h : tx.task ∈ tasks) (stale : tx.isStale cutoff = true) :
    tx.givenUp tasks cutoff = tx.expired :=
  if_pos ⟨h, stale⟩

theorem givenUp_of_not_isStale (h : tx.isStale cutoff = false) : tx.givenUp tasks cutoff = tx :=
  if_neg fun stale => Bool.false_ne_true (h.symm.trans stale.2)

@[simp] theorem task_givenUp : (tx.givenUp tasks cutoff).task = tx.task := by
  unfold givenUp
  split <;> rfl

/-- What is given up for some tasks and then for others is given up for all of them. -/
theorem givenUp_append :
    tx.givenUp (tasks ++ tasks') cutoff = (tx.givenUp tasks cutoff).givenUp tasks' cutoff := by
  cases stale : tx.isStale cutoff with
  | false =>
    rw [givenUp_of_not_isStale stale, givenUp_of_not_isStale stale, givenUp_of_not_isStale stale]
  | true =>
    by_cases h : tx.task ∈ tasks
    · rw [givenUp_of_isStale (List.mem_append_left _ h) stale, givenUp_of_isStale h stale,
        givenUp_of_not_isStale isStale_expired]
    · rw [givenUp_of_not_mem h]
      simp only [givenUp, List.mem_append, h, false_or]

/-- The transactions of other tasks stay as they are. -/
theorem filter_map_givenUp {task : TaskId} (h : task ∉ tasks) (txs : List Transaction) :
    (txs.map (givenUp tasks cutoff)).filter (·.task == task) = txs.filter (·.task == task) := by
  have same : ((fun tx : Transaction => tx.task == task) ∘ givenUp tasks cutoff) =
      fun tx => tx.task == task := funext fun tx => congrArg (· == task) task_givenUp
  rw [List.filter_map, same]
  refine (List.map_congr_left fun tx htx => ?_).trans (List.map_id _)
  exact givenUp_of_not_mem fun hmem => h (beq_iff_eq.mp (List.mem_filter.mp htx).2 ▸ hmem)

end Transaction

/-! ### One look after the other -/

variable {ω : Type} {e : Engine ω} {now : Instant} {c c' c'' : Campaign ω} {o o' : CheckOutcome}

/-- What looking at some tasks has done. -/
structure Round (e : Engine ω) (now : Instant) (looked : List Task) (c : Campaign ω)
    (o : CheckOutcome) (c' : Campaign ω) : Prop where
  found : ∀ t ∈ looked, t.isExpired now = false → ∃ k, c.store.contractOfTask t.id = .ok k
  finished : o.finished = (looked.filter (·.isExpired now)).map (·.id)
  timedOut : o.timedOut = (looked.filter (c.store.isTested now)).flatMap fun t =>
    ((c.store.transactionsOf t.id).filter (·.isStale (now.cutoff e.config.timeout))).map (·.id)
  redriven : o.redriven = ((looked.filter (c.store.isTested now)).filter
    fun t => !c'.store.hasPending t.id).map (·.id)
  tasks : ∀ id, c'.store.tasks.get? id =
    (c.store.tasks.get? id).map fun t => if id ∈ o.finished then t.finished else t
  transactions : c'.store.transactions = c.store.transactions.map
    (.givenUp ((looked.filter (c.store.isTested now)).map (·.id)) (now.cutoff e.config.timeout))
  requests : c'.requests =
    { c.requests with published := c.requests.published ++ o.redriven }
  finishes : c'.finishes =
    { c.finishes with published := c.finishes.published ++ o.finished }
  others : c' = { c with
    store := { c.store with
      tasks := c'.store.tasks
      transactions := c'.store.transactions }
    requests := c'.requests
    finishes := c'.finishes }

namespace Round

variable {looked looked' : List Task}

theorem contracts (h : Round e now looked c o c') : c'.store.contracts = c.store.contracts :=
  congrArg (·.store.contracts) h.others

theorem contractOfTask (h : Round e now looked c o c') (id : TaskId) :
    c'.store.contractOfTask id = c.store.contractOfTask id := by
  rw [Store.contractOfTask, Store.contractOfTask, h.contracts]

theorem isTested (h : Round e now looked c o c') :
    c'.store.isTested now = c.store.isTested now :=
  Store.isTested_congr h.contracts now

/-- Transactions of other tasks are not touched. -/
theorem transactionsOf (h : Round e now looked c o c') {id : TaskId}
    (other : ∀ t ∈ looked, t.id ≠ id) :
    c'.store.transactionsOf id = c.store.transactionsOf id := by
  unfold Store.transactionsOf
  rw [h.transactions]
  refine Transaction.filter_map_givenUp (fun hmem => ?_) _
  obtain ⟨t, ht, hid⟩ := List.mem_map.mp hmem
  exact other t (List.mem_filter.mp ht).1 hid

theorem hasPending (h : Round e now looked c o c') {id : TaskId}
    (other : ∀ t ∈ looked, t.id ≠ id) : c'.store.hasPending id = c.store.hasPending id := by
  rw [Store.hasPending, Store.hasPending, h.transactionsOf other]

/-- Without further events a topic is as it was. -/
theorem topic_append_nil (topic : Topic TaskId) :
    { topic with published := topic.published ++ [] } = topic := by
  rw [List.append_nil]

theorem nil (c : Campaign ω) : Round e now [] c .empty c where
  found _ ht := absurd ht List.not_mem_nil
  finished := rfl
  timedOut := rfl
  redriven := rfl
  tasks id := by simp [CheckOutcome.empty]
  transactions := by simp
  requests := (topic_append_nil _).symm
  finishes := (topic_append_nil _).symm
  others := rfl

/-- The transactions after those of one task were given up. -/
theorem transactions_expired (c : Campaign ω) (task : TaskId) (cutoff : Instant) :
    (c.expired task cutoff).store.transactions =
      c.store.transactions.map (.givenUp [task] cutoff) := by
  refine List.map_congr_left fun tx _ => ?_
  simp [Transaction.givenUp]

/-- A look at a stored task. -/
theorem single {task : Task} (htask : c.store.getTask task.id = .ok task)
    {r : Except Failure CheckOutcome} (check : TaskCheck e now task c (r, c')) :
    ∃ o, r = .ok o ∧ Round e now [task] c o c' := by
  cases check with
  | finished expired =>
    have untested := c.store.isTested_of_isExpired expired
    refine ⟨_, rfl, ?_⟩
    exact {
      found := fun t ht unexpired => by
        rw [List.mem_singleton.mp ht, expired] at unexpired
        cases unexpired
      finished := by simp [expired]
      timedOut := by simp [untested]
      redriven := by simp [untested]
      tasks := fun id => by
        change (c.store.tasks.insert task.id task.finished).get? id = _
        rw [SortedMap.get?_insert]
        by_cases hid : id = task.id
        · rw [if_pos hid, hid, Store.getTask_eq_ok_iff.mp htask]
          simp
        · simp [hid]
      transactions := by
        change c.store.transactions = _
        simp [untested]
      requests := (topic_append_nil _).symm
      finishes := rfl
      others := rfl }
  | deploying unexpired hcontract unanalyzed =>
    have untested := (Store.isTested_eq unexpired hcontract).trans unanalyzed
    refine ⟨_, rfl, ?_⟩
    exact {
      found := fun t ht _ => ⟨_, List.mem_singleton.mp ht ▸ hcontract⟩
      finished := by simp [unexpired, CheckOutcome.empty]
      timedOut := by simp [untested, CheckOutcome.empty]
      redriven := by simp [untested, CheckOutcome.empty]
      tasks := fun id => by simp [CheckOutcome.empty]
      transactions := by simp [untested]
      requests := (topic_append_nil _).symm
      finishes := (topic_append_nil _).symm
      others := rfl }
  | waiting unexpired hcontract analyzed pending =>
    have tested := (Store.isTested_eq unexpired hcontract).trans analyzed
    refine ⟨_, rfl, ?_⟩
    exact {
      found := fun t ht _ => ⟨_, List.mem_singleton.mp ht ▸ hcontract⟩
      finished := by simp [unexpired]
      timedOut := by simp [tested]
      redriven := by simp [tested, pending]
      tasks := fun id => by simp [Campaign.expired]
      transactions := by
        rw [transactions_expired, List.filter_cons_of_pos tested]
        rfl
      requests := (topic_append_nil _).symm
      finishes := (topic_append_nil _).symm
      others := rfl }
  | redriven unexpired hcontract analyzed idle =>
    have tested := (Store.isTested_eq unexpired hcontract).trans analyzed
    have idle' : ((c.expired task.id (now.cutoff e.config.timeout)).publish .fuzzer
      task.id).store.hasPending task.id = false := idle
    refine ⟨_, rfl, ?_⟩
    exact {
      found := fun t ht _ => ⟨_, List.mem_singleton.mp ht ▸ hcontract⟩
      finished := by simp [unexpired]
      timedOut := by simp [tested]
      redriven := by simp [tested, idle']
      tasks := fun id => by simp [Campaign.expired, Campaign.publish, Campaign.setTopic]
      transactions := by
        rw [List.filter_cons_of_pos tested]
        exact transactions_expired c task.id _
      requests := rfl
      finishes := (topic_append_nil _).symm
      others := rfl }

/-- A look at some tasks, and then at others. -/
theorem append (h : Round e now looked c o c') (h' : Round e now looked' c' o' c'')
    (apart : ∀ t ∈ looked, ∀ t' ∈ looked', t.id ≠ t'.id) :
    Round e now (looked ++ looked') c (o.append o') c'' where
  found t ht := by
    rcases List.mem_append.mp ht with ht | ht
    · exact h.found t ht
    · exact h.contractOfTask t.id ▸ h'.found t ht
  finished := by
    change o.finished ++ o'.finished = _
    rw [h.finished, h'.finished, List.filter_append, List.map_append]
  timedOut := by
    change o.timedOut ++ o'.timedOut = _
    rw [h.timedOut, h'.timedOut, h.isTested, List.filter_append, List.flatMap_append]
    congr 1
    refine List.flatMap_congr fun t ht => ?_
    rw [h.transactionsOf fun t' ht' => apart t' ht' t (List.mem_filter.mp ht).1]
  redriven := by
    change o.redriven ++ o'.redriven = _
    rw [h.redriven, h'.redriven, h.isTested, List.filter_append, List.filter_append,
      List.map_append]
    congr 2
    refine List.filter_congr fun t ht => ?_
    rw [h'.hasPending fun t' ht' => (apart t (List.mem_filter.mp ht).1 t' ht').symm]
  tasks id := by
    rw [h'.tasks, h.tasks, Option.map_map]
    congr 1
    funext t
    by_cases hfirst : id ∈ o.finished <;> by_cases hnext : id ∈ o'.finished <;>
      simp [hfirst, hnext, Task.finished, CheckOutcome.append]
  transactions := by
    rw [h'.transactions, h.transactions, h.isTested, List.map_map, List.filter_append,
      List.map_append]
    exact List.map_congr_left fun tx _ => Transaction.givenUp_append.symm
  requests := by
    rw [h'.requests, h.requests]
    exact congrArg (Topic.mk · _) (List.append_assoc _ _ _)
  finishes := by
    rw [h'.finishes, h.finishes]
    exact congrArg (Topic.mk · _) (List.append_assoc _ _ _)
  others := by
    conv_lhs => rw [h'.others, h.others]

end Round

/-- What looks at some tasks lead to: they only fail for want of a contract. -/
inductive RoundOutcome (e : Engine ω) (now : Instant) (looked : List Task) (c : Campaign ω) :
    Except Failure CheckOutcome × Campaign ω → Prop
  | succeeded {o : CheckOutcome} {c' : Campaign ω} (round : Round e now looked c o c') :
      RoundOutcome e now looked c (.ok o, c')
  | failed {task : Task} {missing : Failure} (failure : Failure) (c' : Campaign ω)
      (among : task ∈ looked) (unexpired : task.isExpired now = false)
      (hcontract : c.store.contractOfTask task.id = .error missing) :
      RoundOutcome e now looked c (.error failure, c')

/-- A look at a stored task leads to one of its outcomes, unless the task has no contract. -/
theorem taskCheck_or_missing (e : Engine ω) (now : Instant) (h : c.Filed) {task : Task}
    (htask : c.store.getTask task.id = .ok task) :
    TaskCheck e now task c ((checkTask e now task).perform c) ∨
      ∃ missing, task.isExpired now = false ∧
        c.store.contractOfTask task.id = .error missing ∧
        (checkTask e now task).perform c = (.error missing, c) := by
  cases hexpired : task.isExpired now with
  | true => exact .inl (taskCheck_perform h.distinct now htask (by simp [hexpired]))
  | false =>
    cases hcontract : c.store.contractOfTask task.id with
    | ok k => exact .inl (taskCheck_perform h.distinct now htask fun _ => ⟨k, hcontract⟩)
    | error missing =>
      refine .inr ⟨missing, rfl, rfl, ?_⟩
      unfold checkTask
      rw [hexpired, if_neg Bool.false_ne_true, perform_query_bind_of_error hcontract]

/-- Whatever looks at stored tasks with distinct ids lead to is one of the outcomes. -/
theorem checkEach_outcome (h : c.Filed) {looked : List Task}
    (stored : ∀ task ∈ looked, c.store.getTask task.id = .ok task ∧ task.isRunning = true)
    (distinct : (looked.map (·.id)).Nodup) :
    RoundOutcome e now looked c ((checkEach e now looked).perform c) := by
  induction looked generalizing c with
  | nil => exact .succeeded (.nil c)
  | cons task rest ih =>
    obtain ⟨htask, running⟩ := stored task List.mem_cons_self
    rw [List.map_cons, List.nodup_cons] at distinct
    have apart : ∀ other ∈ rest, task.id ≠ other.id :=
      fun other hother heq => distinct.1 (List.mem_map.mpr ⟨other, hother, heq.symm⟩)
    rcases taskCheck_or_missing e now h htask with
      check | ⟨missing, unexpired, hcontract, hfailed⟩
    · have filed := files_checkTask (e := e) now task c h
      rcases hresult : (checkTask e now task).perform c with ⟨r, c'⟩
      rw [hresult] at check filed
      obtain ⟨-, -, hkept⟩ := moves_of_taskCheck (fun _ _ => True) htask running check
      obtain ⟨o, rfl, first⟩ := Round.single htask check
      -- The other tasks are still as they were when the running tasks were listed.
      have later := stored_of_kept stored distinct.1 hkept
      have next := ih filed later distinct.2
      rcases hrest : (checkEach e now rest).perform c' with ⟨r, c''⟩
      rw [hrest] at next
      rw [checkEach, perform_bind_of_ok hresult]
      cases next with
      | @succeeded o' _ round =>
        rw [perform_bind_of_ok hrest]
        exact .succeeded (first.append round fun t ht other hother =>
          List.mem_singleton.mp ht ▸ apart other hother)
      | failed failure _ among unexpired hcontract =>
        rw [perform_bind_of_error hrest]
        exact .failed failure c'' (List.mem_cons_of_mem _ among) unexpired
          ((first.contractOfTask _).symm.trans hcontract)
    · rw [checkEach, perform_bind_of_error hfailed]
      exact .failed missing c List.mem_cons_self unexpired hcontract

end ContractFuzz
