import ContractFuzz.Proofs.Campaign.CheckRound
import Mathlib.Data.List.Nodup
/-!
# The periodic look at all running tasks

What a look at all running tasks has done is said record by record: which tasks are finished, which
transactions are given up, for which tasks inputs are requested, and that nothing else changes. A
second look at the same time only repeats the requests.

## Main definitions

* `Checked` : what a look at all running tasks has done.

## Main results

* `Round.checked` : it is what looking at them one after the other does.
* `Checked.again` : a second look repeats the requests and does nothing else.
* `checkTasks_exact` : so it is in every state that campaigns come to.
-/

namespace ContractFuzz

open Activity

variable {ω : Type} {e : Engine ω} {now : Instant} {c c' c'' : Campaign ω} {o o' : CheckOutcome}

/-! ### All running tasks -/

/-- What a look at all running tasks has done: the tasks whose time is over are finished, of those
that are being tested the transactions that have waited too long are given up, and inputs are
requested for those that then wait for nothing. All else is as it was. -/
structure Checked (e : Engine ω) (now : Instant) (c : Campaign ω) (o : CheckOutcome)
    (c' : Campaign ω) : Prop where
  finished : ∀ id, id ∈ o.finished ↔ ∃ t, c.store.getTask id = .ok t ∧ t.IsDue now
  finishedAscending : o.finished.Pairwise fun a b => compare a b = .lt
  tasks : ∀ id, c'.store.tasks.get? id =
    (c.store.tasks.get? id).map fun t => if id ∈ o.finished then { t with status := .done } else t
  timedOut : ∀ id, id ∈ o.timedOut ↔ ∃ tx ∈ c.store.transactions, tx.id = id ∧
    c.store.UnderWay now tx.task ∧ tx.status = .running ∧
      tx.timestamp ≤ now.cutoff e.config.timeout
  timedOutOnce : o.timedOut.Nodup
  transactions : c'.store.transactions = c.store.transactions.map
    fun tx => if tx.id ∈ o.timedOut then { tx with status := .done } else tx
  redriven : ∀ id, id ∈ o.redriven ↔ c.store.UnderWay now id ∧
    ∀ tx ∈ c'.store.transactions, tx.task = id → tx.status ≠ .created ∧ tx.status ≠ .running
  redrivenAscending : o.redriven.Pairwise fun a b => compare a b = .lt
  requests : c'.requests =
    { c.requests with published := c.requests.published ++ o.redriven }
  finishes : c'.finishes =
    { c.finishes with published := c.finishes.published ++ o.finished }
  /-- Contracts, functions, numbers, sources, the world and the log are not touched. -/
  others : c' = { c with
    store := { c.store with
      tasks := c'.store.tasks
      transactions := c'.store.transactions }
    requests := c'.requests
    finishes := c'.finishes }

/-- The ids of some of the running tasks ascend. -/
theorem pairwise_map_id (h : c.Filed) (p : Task → Bool) :
    ((c.store.runningTasks.filter p).map (·.id)).Pairwise fun a b => compare a b = .lt :=
  List.pairwise_map.mpr ((Store.pairwise_runningTasks h.taskNamed).filter p)

theorem mem_map_id_iff (h : c.Filed) {p : Task → Bool} {id : TaskId} :
    id ∈ (c.store.runningTasks.filter p).map (·.id) ↔
      ∃ t, c.store.getTask id = .ok t ∧ t.isRunning = true ∧ p t = true := by
  simp only [List.mem_map, List.mem_filter, Store.mem_runningTasks_iff h.taskNamed]
  constructor
  · rintro ⟨t, ⟨⟨ht, running⟩, hp⟩, rfl⟩
    exact ⟨t, ht, running, hp⟩
  · rintro ⟨t, ht, running, hp⟩
    obtain rfl := h.id_eq_of_getTask ht
    exact ⟨t, ⟨⟨ht, running⟩, hp⟩, rfl⟩

/-- The running tasks that are being tested. -/
theorem mem_tested_iff (h : c.Filed) {id : TaskId} :
    id ∈ (c.store.runningTasks.filter (c.store.isTested now)).map (·.id) ↔
      c.store.UnderWay now id := by
  rw [mem_map_id_iff h, Store.underWay_iff]
  refine exists_congr fun t => and_congr_right fun ht => and_congr_right fun _ => ?_
  obtain rfl := h.id_eq_of_getTask ht
  rw [Store.isTested, Bool.and_eq_true, Bool.not_eq_true', Option.any_eq_true]
  refine and_congr_right fun _ => exists_congr fun k => and_congr_left fun _ => ?_
  cases c.store.contractOfTask t.id <;> simp [Except.toOption]

theorem Store.hasPending_eq_false_iff {s : Store} {id : TaskId} : s.hasPending id = false ↔
    ∀ tx ∈ s.transactions, tx.task = id → tx.status ≠ .created ∧ tx.status ≠ .running := by
  rw [hasPending, List.any_eq_false]
  simp only [mem_transactionsOf, and_imp]
  refine forall₃_congr fun tx _ _ => ?_
  unfold Transaction.isPending
  cases tx.status <;> decide

theorem Transaction.isStale_iff {tx : Transaction} {cutoff : Instant} :
    tx.isStale cutoff = true ↔ tx.status = .running ∧ tx.timestamp ≤ cutoff := by
  rw [isStale, Bool.and_eq_true, beq_iff_eq, decide_eq_true_iff]

namespace Round

variable (h : c.Filed) (round : Round e now c.store.runningTasks c o c')

include h round

theorem mem_timedOut_iff {id : TransactionId} : id ∈ o.timedOut ↔
    ∃ tx ∈ c.store.transactions, tx.id = id ∧ c.store.UnderWay now tx.task ∧
      tx.isStale (now.cutoff e.config.timeout) = true := by
  rw [round.timedOut, List.mem_flatMap]
  constructor
  · rintro ⟨t, ht, hid⟩
    obtain ⟨tx, htx, rfl⟩ := List.mem_map.mp hid
    obtain ⟨hof, stale⟩ := List.mem_filter.mp htx
    obtain ⟨hmem, htask⟩ := Store.mem_transactionsOf.mp hof
    exact ⟨tx, hmem, rfl, htask ▸ (mem_tested_iff h).mp (List.mem_map_of_mem ht), stale⟩
  · rintro ⟨tx, hmem, rfl, underWay, stale⟩
    obtain ⟨t, ht, htask⟩ := List.mem_map.mp ((mem_tested_iff h).mpr underWay)
    refine ⟨t, ht, List.mem_map.mpr ⟨tx, List.mem_filter.mpr ⟨?_, stale⟩, rfl⟩⟩
    exact Store.mem_transactionsOf.mpr ⟨hmem, htask.symm⟩

/-- No transaction belongs to two of the tasks. -/
theorem nodup_timedOut : o.timedOut.Nodup := by
  rw [round.timedOut, List.nodup_flatMap]
  refine ⟨fun t _ => ?_,
    ((List.pairwise_map.mp (Store.nodup_runningTasks h.taskNamed)).filter _).imp
      fun {t t'} hne => ?_⟩
  · exact h.distinct.sublist ((List.filter_sublist.trans List.filter_sublist).map _)
  · intro id hid hid'
    obtain ⟨tx, htx, rfl⟩ := List.mem_map.mp hid
    obtain ⟨tx', htx', heq⟩ := List.mem_map.mp hid'
    obtain ⟨hmem, htask⟩ := Store.mem_transactionsOf.mp (List.mem_filter.mp htx).1
    obtain ⟨hmem', htask'⟩ := Store.mem_transactionsOf.mp (List.mem_filter.mp htx').1
    obtain rfl := List.inj_on_of_nodup_map h.distinct hmem' hmem heq
    exact hne (htask.symm.trans htask')

/-- Exactly the transactions that are listed are given up. -/
theorem transactions_timedOut : c'.store.transactions = c.store.transactions.map
    fun tx => if tx.id ∈ o.timedOut then { tx with status := .done } else tx := by
  rw [round.transactions]
  refine List.map_congr_left fun tx htx => if_congr ?_ rfl rfl
  rw [mem_tested_iff h, mem_timedOut_iff h round]
  constructor
  · exact fun ⟨underWay, stale⟩ => ⟨tx, htx, rfl, underWay, stale⟩
  · rintro ⟨tx', htx', hid, underWay, stale⟩
    obtain rfl := List.inj_on_of_nodup_map h.distinct htx' htx hid
    exact ⟨underWay, stale⟩

/-- Looking at all running tasks one after the other does what it should. -/
theorem checked : Checked e now c o c' where
  finished id := by
    rw [round.finished, mem_map_id_iff h]
    simp only [Task.isRunning_iff, Task.isExpired_iff]
    rfl
  finishedAscending := round.finished ▸ pairwise_map_id h _
  tasks := round.tasks
  timedOut id := by
    simp only [mem_timedOut_iff h round, Transaction.isStale_iff]
  timedOutOnce := round.nodup_timedOut h
  transactions := round.transactions_timedOut h
  redriven id := by
    rw [round.redriven, List.filter_filter, mem_map_id_iff h, ← Store.hasPending_eq_false_iff,
      ← mem_tested_iff h, mem_map_id_iff h]
    constructor
    · rintro ⟨t, ht, running, hboth⟩
      obtain ⟨idle, tested⟩ := Bool.and_eq_true_iff.mp hboth
      rw [h.id_eq_of_getTask ht, Bool.not_eq_true'] at idle
      exact ⟨⟨t, ht, running, tested⟩, idle⟩
    · rintro ⟨⟨t, ht, running, tested⟩, idle⟩
      refine ⟨t, ht, running, Bool.and_eq_true_iff.mpr ⟨?_, tested⟩⟩
      rw [h.id_eq_of_getTask ht, idle, Bool.not_false]
  redrivenAscending := by
    rw [round.redriven, List.filter_filter]
    exact pairwise_map_id h _
  requests := round.requests
  finishes := round.finishes
  others := round.others

end Round

/-- Whatever a look at all running tasks leads to is one of the outcomes. -/
theorem checkTasks_outcome (e : Engine ω) (now : Instant) (h : c.Filed) :
    RoundOutcome e now c.store.runningTasks c ((checkTasks e now).perform c) := by
  unfold checkTasks
  rw [perform_view_bind]
  exact checkEach_outcome h (fun task htask => (Store.mem_runningTasks_iff h.taskNamed).mp htask)
    (Store.nodup_runningTasks h.taskNamed)

/-- If a look at all running tasks succeeds, it has looked at them one after the other. -/
theorem round_checkTasks (h : c.Filed) (ok : (checkTasks e now).perform c = (.ok o, c')) :
    Round e now c.store.runningTasks c o c' := by
  have outcome := checkTasks_outcome e now h
  rw [ok] at outcome
  cases outcome with
  | succeeded round => exact round

/-- If every running task whose time is not over has a contract, the look succeeds. -/
theorem exists_checkTasks (e : Engine ω) (now : Instant) (h : c.Filed)
    (found : ∀ t ∈ c.store.runningTasks,
      t.isExpired now = false → ∃ k, c.store.contractOfTask t.id = .ok k) :
    ∃ o c', (checkTasks e now).perform c = (.ok o, c') := by
  have outcome := checkTasks_outcome e now h
  generalize (checkTasks e now).perform c = result at outcome
  cases outcome with
  | succeeded round => exact ⟨_, _, rfl⟩
  | failed failure c' among unexpired missing =>
    obtain ⟨k, hk⟩ := found _ among unexpired
    rw [missing] at hk
    cases hk

/-- If records are sound, the look succeeds. -/
theorem exists_checked (e : Engine ω) (now : Instant) (h : c.ledger.Sound) :
    ∃ o c', (checkTasks e now).perform c = (.ok o, c') ∧ Checked e now c o c' := by
  have filed := Campaign.filed_of_sound h
  obtain ⟨o, c', ok⟩ := exists_checkTasks e now filed fun t ht _ =>
    h.exists_contractOfTask ((Store.mem_runningTasks_iff filed.taskNamed).mp ht).1
  exact ⟨o, c', ok, (round_checkTasks filed ok).checked filed⟩

namespace Checked

variable (h : Checked e now c o c')

include h

/-- Tasks that were not finished are as they were. -/
theorem getTask_of_not_mem {id : TaskId} (hid : id ∉ o.finished) :
    c'.store.getTask id = c.store.getTask id := by
  rw [Store.getTask, Store.getTask, h.tasks]
  simp [hid]

/-- Tasks that were finished do not run any more. -/
theorem done_of_mem {id : TaskId} (hid : id ∈ o.finished) {t : Task}
    (ht : c'.store.getTask id = .ok t) : t.status = .done := by
  rw [Store.getTask_eq_ok_iff, h.tasks, Option.map_eq_some_iff] at ht
  obtain ⟨t, -, rfl⟩ := ht
  rw [if_pos hid]

/-- No task is left whose time is over. -/
theorem not_isDue {id : TaskId} {t : Task} (ht : c'.store.getTask id = .ok t) :
    ¬ t.IsDue now := by
  intro hdue
  by_cases hid : id ∈ o.finished
  · have running := hdue.1
    rw [h.done_of_mem hid ht] at running
    cases running
  · exact hid ((h.finished id).mpr ⟨t, h.getTask_of_not_mem hid ▸ ht, hdue⟩)

theorem contracts : c'.store.contracts = c.store.contracts :=
  congrArg (·.store.contracts) h.others

theorem contractOfTask (id : TaskId) :
    c'.store.contractOfTask id = c.store.contractOfTask id := by
  rw [Store.contractOfTask, Store.contractOfTask, h.contracts]

/-- The same tasks are being tested as before. -/
theorem underWay_iff {id : TaskId} : c'.store.UnderWay now id ↔ c.store.UnderWay now id := by
  simp only [Store.UnderWay, h.contractOfTask]
  constructor
  · rintro ⟨t, k, ht, running, undue, hk⟩
    have hid : id ∉ o.finished := fun hid => by
      rw [h.done_of_mem hid ht] at running
      cases running
    exact ⟨t, k, h.getTask_of_not_mem hid ▸ ht, running, undue, hk⟩
  · rintro ⟨t, k, ht, running, undue, hk⟩
    have hid : id ∉ o.finished := fun hid => by
      obtain ⟨t', ht', due⟩ := (h.finished id).mp hid
      exact undue (Except.ok.inj (ht.symm.trans ht') ▸ due)
    exact ⟨t, k, (h.getTask_of_not_mem hid).trans ht, running, undue, hk⟩

/-- No transaction is left that has waited too long. -/
theorem not_running_of_underWay {tx : Transaction} (htx : tx ∈ c'.store.transactions)
    (underWay : c'.store.UnderWay now tx.task) (old : tx.timestamp ≤ now.cutoff e.config.timeout) :
    tx.status ≠ .running := by
  rw [h.transactions] at htx
  obtain ⟨tx', hmem, rfl⟩ := List.mem_map.mp htx
  by_cases hid : tx'.id ∈ o.timedOut
  · rw [if_pos hid]
    exact nofun
  · rw [if_neg hid] at underWay old ⊢
    exact fun running =>
      hid ((h.timedOut tx'.id).mpr ⟨tx', hmem, rfl, h.underWay_iff.mp underWay, running, old⟩)

/-- A second look finishes nothing and gives up nothing. It repeats the requests and does nothing
else. -/
theorem again (h' : Checked e now c' o' c'') : o' = ⟨[], [], o.redriven⟩ ∧
    c'' = { c' with requests :=
      { c'.requests with published := c'.requests.published ++ o.redriven } } := by
  have finished : o'.finished = [] := by
    refine List.eq_nil_iff_forall_not_mem.mpr fun id hid => ?_
    obtain ⟨t, ht, due⟩ := (h'.finished id).mp hid
    exact h.not_isDue ht due
  have timedOut : o'.timedOut = [] := by
    refine List.eq_nil_iff_forall_not_mem.mpr fun id hid => ?_
    obtain ⟨tx, htx, -, underWay, running, old⟩ := (h'.timedOut id).mp hid
    exact h.not_running_of_underWay htx underWay old running
  have tasks : c''.store.tasks = c'.store.tasks := by
    refine SortedMap.ext_get? fun id => ?_
    rw [h'.tasks, finished]
    simp
  have transactions : c''.store.transactions = c'.store.transactions := by
    rw [h'.transactions, timedOut]
    simp
  have redriven : o'.redriven = o.redriven := by
    refine congrArg SortedSet.toList (SortedSet.ext_mem (s := ⟨_, h'.redrivenAscending⟩)
      (t := ⟨_, h.redrivenAscending⟩) fun id => ?_)
    change id ∈ o'.redriven ↔ id ∈ o.redriven
    rw [h'.redriven, h.redriven, transactions, h.underWay_iff]
  have finishes : c''.finishes = c'.finishes := by
    rw [h'.finishes, finished, List.append_nil]
  refine ⟨?_, ?_⟩
  · rw [← finished, ← timedOut, ← redriven]
  · conv_lhs => rw [h'.others, tasks, transactions, h'.requests, finishes, redriven]

end Checked

/-- A second look succeeds as well: every task that it looks at was looked at before. -/
theorem Round.succeeds_again (h : c.Filed) (h' : c'.Filed)
    (round : Round e now c.store.runningTasks c o c') :
    ∃ o' c'', (checkTasks e now).perform c' = (.ok o', c'') := by
  refine exists_checkTasks e now h' fun t ht unexpired => ?_
  have checked := round.checked h
  obtain ⟨hget, running⟩ := (Store.mem_runningTasks_iff h'.taskNamed).mp ht
  have hid : t.id ∉ o.finished := fun hid => by
    rw [Task.isRunning_iff, checked.done_of_mem hid hget] at running
    cases running
  rw [checked.getTask_of_not_mem hid] at hget
  rw [checked.contractOfTask]
  exact round.found t ((Store.mem_runningTasks_iff h.taskNamed).mpr ⟨hget, running⟩) unexpired

/-- After any operations, a look at all running tasks that succeeds has done exactly what it
should, and a second one right after it repeats the requests and does nothing else. -/
theorem checkTasks_exact {world : ω} {deployer fuzzer : Source} {ops : List (Operation ω)}
    (reached : c = Operation.performAll e ops (.initial world deployer fuzzer))
    (ok : (checkTasks e now).perform c = (.ok o, c')) :
    Checked e now c o c' ∧ (checkTasks e now).perform c' = (.ok ⟨[], [], o.redriven⟩,
      { c' with requests :=
        { c'.requests with published := c'.requests.published ++ o.redriven } }) := by
  have filed : c.Filed := reached ▸ Campaign.filed_performAll
    (Campaign.filed_initial world deployer fuzzer) ops
  have filed' : c'.Filed := by
    have files := files_checkTasks (e := e) now c filed
    rwa [ok] at files
  have round := round_checkTasks filed ok
  have checked := round.checked filed
  obtain ⟨o', c'', again⟩ := round.succeeds_again filed filed'
  obtain ⟨ho, hc⟩ := checked.again ((round_checkTasks filed' again).checked filed')
  exact ⟨checked, ho ▸ hc ▸ again⟩

/-- A task of one hour. -/
def patientTask : Task :=
  ⟨⟨1⟩, .blackbox, [], .created, .ofSeconds 3600, none, none, .empty⟩

/-- A task of a minute and one of an hour have a batch submitted each. -/
def lostOperations : List (Operation World) :=
  [.register switchTask switchContract, .register patientTask { switchContract with id := ⟨1⟩ },
    .start ⟨0⟩ .epoch, .start ⟨1⟩ .epoch, .deliver .deployer, .deliver .deployer,
    .deliver .fuzzer, .deliver .fuzzer]

/-- The world at the thirtieth second. -/
def lostWorld : World := { switchWorld with now := Instant.epoch.deadline (.ofSeconds 30) }

/-- The state in which no callback has arrived. -/
def lostCallbacks : Campaign World :=
  Operation.performAll tickingEngine lostOperations (.initial lostWorld (.ofSeed 0) (.ofSeed 0))

/-- After a minute the first task is finished. Of the batch of the other one, the first transaction
is half a minute old and given up, while the second one is still waited for. A second later it is
given up too, and the task gets a request. -/
theorem checkTasks_exact_lostCallbacks :
    (∃ c', Checked tickingEngine (Instant.epoch.deadline (.ofSeconds 60)) lostCallbacks
      ⟨[⟨0⟩], [⟨4⟩], []⟩ c') ∧
    ∃ c', Checked tickingEngine (Instant.epoch.deadline (.ofSeconds 61)) lostCallbacks
        ⟨[⟨0⟩], [⟨4⟩, ⟨5⟩], [⟨1⟩]⟩ c' ∧
      ((checkTasks tickingEngine (Instant.epoch.deadline (.ofSeconds 61))).perform c').1 =
        .ok ⟨[], [], [⟨1⟩]⟩ := by
  have reached : lostCallbacks = Operation.performAll tickingEngine lostOperations
      (.initial lostWorld (.ofSeed 0) (.ofSeed 0)) := rfl
  have minute : ((checkTasks tickingEngine (Instant.epoch.deadline (.ofSeconds 60))).perform
      lostCallbacks).1 = .ok ⟨[⟨0⟩], [⟨4⟩], []⟩ := by decide +kernel
  have later : ((checkTasks tickingEngine (Instant.epoch.deadline (.ofSeconds 61))).perform
      lostCallbacks).1 = .ok ⟨[⟨0⟩], [⟨4⟩, ⟨5⟩], [⟨1⟩]⟩ := by decide +kernel
  rcases hminute : (checkTasks tickingEngine (Instant.epoch.deadline (.ofSeconds 60))).perform
    lostCallbacks with ⟨r, c'⟩
  rcases hlater : (checkTasks tickingEngine (Instant.epoch.deadline (.ofSeconds 61))).perform
    lostCallbacks with ⟨r', c''⟩
  rw [hminute] at minute
  rw [hlater] at later
  obtain ⟨checked, -⟩ := checkTasks_exact reached (hminute.trans (congrArg (·, c') minute))
  obtain ⟨checked', again⟩ := checkTasks_exact reached (hlater.trans (congrArg (·, c'') later))
  exact ⟨⟨c', checked⟩, c'', checked', by rw [again]⟩

end ContractFuzz
