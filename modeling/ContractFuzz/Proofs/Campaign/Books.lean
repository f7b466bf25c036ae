import ContractFuzz.Proofs.Campaign.CheckRound
import ContractFuzz.Proofs.Campaign.Frame
import Mathlib.Data.List.Nodup
/-!
# Tasks and the announcements of their starts and ends

The status of a task is written in three places: tasks are registered, started, and finished once
their time is over. All else that is written of a task are the instructions that were executed for
it. Whenever a task is started or finished, this is announced, and never otherwise; so what was
announced can be read off the tasks.

## Main definitions

* `Books` : the tasks, and the announcements.
* `Books.Entry` : what an operation writes there.
* `Books.Balanced` : the announcements and the times of all tasks go with their status.
* `Task.Continues` : what stays true of a task.

## Main results

* `Operation.books_perform` : every operation writes entries, if tasks are registered once.
* `Books.Entries.balanced`, `Books.Entries.continues` : what all entries keep.
-/

namespace ContractFuzz

open Activity

variable {ω : Type}

/-! ### Single tasks -/

/-- A task that was not started. -/
structure Task.Unbegun (t : Task) : Prop where
  created : t.status = .created
  start : t.start = none
  expiration : t.expiration = none

/-- The task knows when it was started if it was, and the time at which it is over then. -/
structure Task.Timed (t : Task) : Prop where
  start : t.start.isSome = true ↔ t.status ≠ .created
  expiration : t.expiration = t.start.map (·.deadline t.duration)

/-- How often the start of the task was announced. -/
def Task.startCount (t : Task) : Nat := if t.status = .created then 0 else 1

/-- How often its end was announced. -/
def Task.finishCount (t : Task) : Nat := if t.status = .done then 1 else 0

/-- One step on in the life of a task. -/
inductive TaskStatus.Next : TaskStatus → TaskStatus → Prop
  | start : Next created running
  | finish : Next running done

/-- The steps that an operation may take with a task: only starting it makes it run, and only a look
at all tasks finishes it. -/
inductive Operation.Moves : Operation ω → TaskId → TaskStatus → TaskStatus → Prop
  | start (id : TaskId) (now : Instant) : Moves (.start id now) id .created .running
  | finish (id : TaskId) (now : Instant) : Moves (.check now) id .running .done

/-- A later version of a task, with a status that is related to the earlier one. Once the task was
started, its times stay. -/
structure Task.Continues (Related : TaskStatus → TaskStatus → Prop) (old new : Task) : Prop where
  id : new.id = old.id
  duration : new.duration = old.duration
  status : Related old.status new.status
  start : old.status ≠ .created → new.start = old.start
  expiration : old.status ≠ .created → new.expiration = old.expiration

theorem Operation.Moves.next {op : Operation ω} {id : TaskId} {s s' : TaskStatus}
    (h : op.Moves id s s') : s.Next s' := by
  cases h
  · exact .start
  · exact .finish

/-- No operation takes a task two steps further. -/
theorem Operation.Moves.once {op : Operation ω} {id : TaskId} {s s' s'' : TaskStatus}
    (h : op.Moves id s s') : ¬ op.Moves id s' s'' := by
  cases h <;> exact nofun

theorem Operation.Moves.reflGen_trans {op : Operation ω} {id : TaskId} {s s' s'' : TaskStatus}
    (h : Relation.ReflGen (op.Moves id) s s') (h' : Relation.ReflGen (op.Moves id) s' s'') :
    Relation.ReflGen (op.Moves id) s s'' := by
  cases h with
  | refl => exact h'
  | single first =>
    cases h' with
    | refl => exact .single first
    | single second => exact absurd second first.once

theorem TaskStatus.ne_created_of_next {s s' : TaskStatus}
    (h : Relation.ReflTransGen TaskStatus.Next s s') (started : s ≠ .created) : s' ≠ .created := by
  induction h with
  | refl => exact started
  | tail _ next _ => cases next <;> exact nofun

namespace Task.Continues

variable {old mid new : Task} {op : Operation ω} {id : TaskId}

theorem refl (R : TaskStatus → TaskStatus → Prop) (hR : ∀ s, R s s) (t : Task) : t.Continues R t :=
  ⟨rfl, rfl, hR _, fun _ => rfl, fun _ => rfl⟩

/-- What an operation has done to a task is one step or none. -/
theorem overall (h : old.Continues (Relation.ReflGen (op.Moves id)) new) :
    old.Continues (Relation.ReflTransGen TaskStatus.Next) new where
  id := h.id
  duration := h.duration
  status := (h.status.mono fun _ _ => Operation.Moves.next).to_reflTransGen
  start := h.start
  expiration := h.expiration

theorem trans (h : old.Continues (Relation.ReflTransGen TaskStatus.Next) mid)
    (h' : mid.Continues (Relation.ReflTransGen TaskStatus.Next) new) :
    old.Continues (Relation.ReflTransGen TaskStatus.Next) new where
  id := h'.id.trans h.id
  duration := h'.duration.trans h.duration
  status := h.status.trans h'.status
  start started := (h'.start (TaskStatus.ne_created_of_next h.status started)).trans
    (h.start started)
  expiration started := (h'.expiration (TaskStatus.ne_created_of_next h.status started)).trans
    (h.expiration started)

end Task.Continues

/-! ### Entries -/

/-- The tasks, and those whose starts and ends were announced. -/
structure Books where
  /-- Tasks by id. -/
  tasks : SortedMap TaskId Task
  /-- The events for the deployer. -/
  starts : List TaskId
  /-- The events for the reporter. -/
  finishes : List TaskId

/-- The part of the ledger that is about tasks. -/
def Ledger.books (g : Ledger) : Books where
  tasks := g.store.tasks
  starts := g.published .deployer
  finishes := g.published .reporter

namespace Books

variable {b b' : Books} {op : Operation ω}

/-- What an operation writes: a task is registered, started, finished, or was executed further. -/
inductive Entry : Operation ω → Books → Books → Prop
  | enroll {b : Books} {task : Task} {contract : Contract} (new : b.tasks.get? task.id = none)
      (unbegun : task.Unbegun) :
      Entry (.register task contract) b { b with tasks := b.tasks.insert task.id task }
  | start {b : Books} {task : Task} {now : Instant} (htask : b.tasks.get? task.id = some task)
      (created : task.status = .created) :
      Entry (.start task.id now) b { b with
        tasks := b.tasks.insert task.id (task.started now)
        starts := b.starts ++ [task.id] }
  | finish {b : Books} {task : Task} {now : Instant} (htask : b.tasks.get? task.id = some task)
      (running : task.status = .running) :
      Entry (.check now) b { b with
        tasks := b.tasks.insert task.id task.finished
        finishes := b.finishes ++ [task.id] }
  | merge {b : Books} {task : Task} {hash : String} {executed : PcSet}
      (htask : b.tasks.get? task.id = some task) :
      Entry (.recordExecution hash executed) b
        { b with tasks := b.tasks.insert task.id (task.mergeExecuted executed) }

/-- Any number of entries of one operation. -/
abbrev Entries (op : Operation ω) : Books → Books → Prop := Relation.ReflTransGen (Entry op)

/-- Tasks are kept under their own ids and know their times, and what was announced goes with their
status. -/
structure Balanced (b : Books) : Prop where
  named : ∀ {id t}, b.tasks.get? id = some t → t.id = id
  timed : ∀ {id t}, b.tasks.get? id = some t → t.Timed
  starts : ∀ id, b.starts.count id = (b.tasks.get? id).elim 0 Task.startCount
  finishes : ∀ id, b.finishes.count id = (b.tasks.get? id).elim 0 Task.finishCount

namespace Balanced

theorem starts_eq (h : b.Balanced) {id : TaskId} {t : Task} (ht : b.tasks.get? id = some t) :
    b.starts.count id = t.startCount := by
  rw [h.starts, ht]
  rfl

theorem finishes_eq (h : b.Balanced) {id : TaskId} {t : Task} (ht : b.tasks.get? id = some t) :
    b.finishes.count id = t.finishCount := by
  rw [h.finishes, ht]
  rfl

/-- Only tasks that are done are announced to be. -/
theorem done_of_mem_finishes (h : b.Balanced) {id : TaskId} (hid : id ∈ b.finishes) :
    ∃ t, b.tasks.get? id = some t ∧ t.status = .done := by
  have hpos := List.count_pos_iff.mpr hid
  rw [h.finishes] at hpos
  cases ht : b.tasks.get? id with
  | none =>
    rw [ht] at hpos
    cases hpos
  | some t =>
    rw [ht] at hpos
    refine ⟨t, rfl, by_contra fun other => ?_⟩
    have hzero : t.finishCount = 0 := if_neg other
    exact Nat.ne_of_gt hpos hzero

/-- The end of every task is announced once at most. -/
theorem nodup_finishes (h : b.Balanced) : b.finishes.Nodup := by
  refine List.nodup_iff_count_le_one.mpr fun id => ?_
  rw [h.finishes]
  cases b.tasks.get? id with
  | none => exact Nat.zero_le 1
  | some t =>
    change t.finishCount ≤ 1
    unfold Task.finishCount
    split
    · exact Nat.le_refl 1
    · exact Nat.zero_le 1

/-- One task may be written down, if what is announced of it goes with its status then. -/
theorem insert (h : b.Balanced) (id : TaskId) {t : Task} (timed : t.Timed) (hid : t.id = id)
    {starts finishes : List TaskId} (started : starts.count id = t.startCount)
    (finished : finishes.count id = t.finishCount)
    (others : ∀ id' ≠ id,
      starts.count id' = b.starts.count id' ∧ finishes.count id' = b.finishes.count id') :
    Balanced ⟨b.tasks.insert id t, starts, finishes⟩ where
  named ht := by
    rcases SortedMap.get?_insert_eq_some_iff.mp ht with ⟨rfl, rfl⟩ | ⟨-, ht⟩
    · exact hid
    · exact h.named ht
  timed ht := by
    rcases SortedMap.get?_insert_eq_some_iff.mp ht with ⟨rfl, rfl⟩ | ⟨-, ht⟩
    · exact timed
    · exact h.timed ht
  starts id' := by
    by_cases heq : id' = id
    · rw [heq, SortedMap.get?_insert_self]
      exact started
    · rw [SortedMap.get?_insert_of_ne heq, (others id' heq).1]
      exact h.starts id'
  finishes id' := by
    by_cases heq : id' = id
    · rw [heq, SortedMap.get?_insert_self]
      exact finished
    · rw [SortedMap.get?_insert_of_ne heq, (others id' heq).2]
      exact h.finishes id'

end Balanced

/-- A further announcement counts for its own task. -/
private theorem count_append_self (l : List TaskId) (id : TaskId) :
    (l ++ [id]).count id = l.count id + 1 := by
  rw [List.count_append, List.count_singleton_self]

private theorem count_append_of_ne (l : List TaskId) {id id' : TaskId} (h : id' ≠ id) :
    (l ++ [id]).count id' = l.count id' := by
  rw [List.count_append, List.count_singleton, if_neg (by simpa using h.symm), Nat.add_zero]

theorem Entry.balanced (entry : Entry op b b') (h : b.Balanced) : b'.Balanced := by
  cases entry with
  | @enroll _ task contract new unbegun =>
    have timed : task.Timed := by
      refine ⟨?_, by rw [unbegun.start, unbegun.expiration]; rfl⟩
      simp [unbegun.start, unbegun.created]
    refine h.insert task.id timed rfl ?_ ?_ fun _ _ => ⟨rfl, rfl⟩
    · rw [h.starts, new, Task.startCount, if_pos unbegun.created]
      rfl
    · rw [h.finishes, new, Task.finishCount, unbegun.created]
      rfl
  | @start _ task now htask created =>
    have timed : (task.started now).Timed := ⟨iff_of_true rfl nofun, rfl⟩
    refine h.insert task.id timed rfl ?_ ?_ fun id hid => ⟨count_append_of_ne _ hid, rfl⟩
    · rw [count_append_self, h.starts_eq htask, Task.startCount, if_pos created]
      rfl
    · rw [h.finishes_eq htask, Task.finishCount, created]
      rfl
  | @finish _ task now htask running =>
    have old := h.timed htask
    have timed : task.finished.Timed := by
      refine ⟨iff_of_true (old.start.mpr ?_) nofun, old.expiration⟩
      rw [running]
      exact nofun
    refine h.insert task.id timed rfl ?_ ?_ fun id hid => ⟨rfl, count_append_of_ne _ hid⟩
    · rw [h.starts_eq htask, Task.startCount, running]
      rfl
    · rw [count_append_self, h.finishes_eq htask, Task.finishCount, running]
      rfl
  | @merge _ task hash executed htask =>
    have old := h.timed htask
    have timed : (task.mergeExecuted executed).Timed := ⟨old.start, old.expiration⟩
    have started := h.starts_eq htask
    have finished := h.finishes_eq htask
    exact h.insert task.id timed rfl started finished fun _ _ => ⟨rfl, rfl⟩

/-- All tasks are still there, in later versions. -/
def TasksContinue (R : TaskId → TaskStatus → TaskStatus → Prop) (b b' : Books) : Prop :=
  ∀ id t, b.tasks.get? id = some t → ∃ t', b'.tasks.get? id = some t' ∧ t.Continues (R id) t'

/-- One task may be replaced by a later version. -/
theorem tasksContinue_insert {R : TaskId → TaskStatus → TaskStatus → Prop} (hR : ∀ id s, R id s s)
    {id : TaskId} {t : Task} (ht : b.tasks.get? id = some t) (t' : Task)
    (continues : t.Continues (R id) t') (tasks : b'.tasks = b.tasks.insert id t') :
    b.TasksContinue R b' := by
  intro id' old hold
  by_cases hid : id' = id
  · subst hid
    obtain rfl := Option.some.inj (hold.symm.trans ht)
    exact ⟨t', tasks ▸ SortedMap.get?_insert_self _ _ _, continues⟩
  · exact ⟨old, tasks ▸ (SortedMap.get?_insert_of_ne hid).trans hold, .refl _ (hR id') old⟩

theorem Entry.continues (entry : Entry op b b') :
    b.TasksContinue (fun id => Relation.ReflGen (op.Moves id)) b' := by
  have hR : ∀ (id : TaskId) s, Relation.ReflGen (op.Moves id) s s := fun _ _ => .refl
  cases entry with
  | @enroll _ task contract new unbegun =>
    intro id t ht
    have hid : id ≠ task.id := fun heq => by
      rw [heq, new] at ht
      cases ht
    exact ⟨t, (SortedMap.get?_insert_of_ne hid).trans ht, .refl _ (hR id) t⟩
  | @start _ task now htask created =>
    refine tasksContinue_insert hR htask (task.started now) ⟨rfl, rfl, .single ?_,
      fun h => absurd created h, fun h => absurd created h⟩ rfl
    exact created ▸ .start task.id now
  | @finish _ task now htask running =>
    refine tasksContinue_insert hR htask task.finished
      ⟨rfl, rfl, .single ?_, fun _ => rfl, fun _ => rfl⟩ rfl
    exact running ▸ .finish task.id now
  | @merge _ task hash executed htask =>
    exact tasksContinue_insert hR htask (task.mergeExecuted executed)
      ⟨rfl, rfl, .refl, fun _ => rfl, fun _ => rfl⟩ rfl

namespace Entries

theorem balanced (entries : Entries op b b') (h : b.Balanced) : b'.Balanced := by
  induction entries with
  | refl => exact h
  | tail _ entry ih => exact entry.balanced ih

/-- One operation takes every task one step further at most. -/
theorem continues (entries : Entries op b b') :
    b.TasksContinue (fun id => Relation.ReflGen (op.Moves id)) b' := by
  induction entries with
  | refl => exact fun id t ht => ⟨t, ht, .refl _ (fun _ => .refl) t⟩
  | tail _ entry ih =>
    intro id t ht
    obtain ⟨t₁, ht₁, first⟩ := ih id t ht
    obtain ⟨t₂, ht₂, second⟩ := entry.continues id t₁ ht₁
    refine ⟨t₂, ht₂, ?_⟩
    have both := first.overall.trans second.overall
    exact ⟨both.id, both.duration, Operation.Moves.reflGen_trans first.status second.status,
      both.start, both.expiration⟩

/-- Announcements are never taken back. -/
theorem prefix_of_finishes (entries : Entries op b b') : b.finishes <+: b'.finishes := by
  induction entries with
  | refl => exact List.prefix_rfl
  | tail _ entry ih =>
    refine ih.trans ?_
    cases entry
    case finish => exact List.prefix_append _ _
    all_goals exact List.prefix_rfl

end Entries

end Books

/-! ### Operations -/

variable {e : Engine ω} {c : Campaign ω}

/-- A task that is registered was not registered before, and was not started. -/
def Operation.Enrolls (c : Campaign ω) : Operation ω → Prop
  | register task _ => c.store.tasks.get? task.id = none ∧ task.Unbegun
  | _ => True

/-- A look at one task finishes it or writes nothing of it. -/
theorem entries_of_taskCheck {now : Instant} {task : Task}
    {r : Except Failure CheckOutcome} {c' : Campaign ω}
    (htask : c.store.getTask task.id = .ok task) (running : task.isRunning = true)
    (check : TaskCheck e now task c (r, c')) :
    Books.Entries (.check now : Operation ω) c.ledger.books c'.ledger.books := by
  cases check with
  | finished expired =>
    have hstored : c.ledger.books.tasks.get? task.id = some task := Store.getTask_eq_ok_iff.mp htask
    have entry : Books.Entry (.check now : Operation ω) c.ledger.books _ :=
      .finish hstored (Task.isRunning_iff.mp running)
    exact .single entry
  | deploying unexpired hcontract unanalyzed => exact .refl
  | waiting unexpired hcontract analyzed pending => exact .refl
  | redriven unexpired hcontract analyzed idle => exact .refl

theorem entries_checkEach (filed : c.Filed) (now : Instant) {tasks : List Task}
    (stored : ∀ task ∈ tasks, c.store.getTask task.id = .ok task ∧ task.isRunning = true)
    (distinct : (tasks.map (·.id)).Nodup) :
    Books.Entries (.check now : Operation ω) c.ledger.books
      ((checkEach e now tasks).perform c).2.ledger.books := by
  induction tasks generalizing c with
  | nil => exact .refl
  | cons task rest ih =>
    obtain ⟨htask, running⟩ := stored task List.mem_cons_self
    rw [List.map_cons, List.nodup_cons] at distinct
    rcases taskCheck_or_missing e now filed htask with check | ⟨missing, -, -, hfailed⟩
    · have filed' := files_checkTask (e := e) now task c filed
      rcases hresult : (checkTask e now task).perform c with ⟨r, c'⟩
      rw [hresult] at check filed'
      have first := entries_of_taskCheck htask running check
      obtain ⟨-, ⟨outcome, rfl⟩, hkept⟩ := moves_of_taskCheck (fun _ _ => True) htask running check
      rw [checkEach, perform_bind_of_ok hresult, perform_bind_pure_snd]
      exact first.trans (ih filed' (stored_of_kept stored distinct.1 hkept) distinct.2)
    · rw [checkEach, perform_bind_of_error hfailed]

theorem entries_checkTasks (filed : c.Filed) (now : Instant) :
    Books.Entries (.check now : Operation ω) c.ledger.books
      ((checkTasks e now).perform c).2.ledger.books := by
  unfold checkTasks
  rw [perform_view_bind]
  exact entries_checkEach filed now
    (fun task htask => (Store.mem_runningTasks_iff filed.taskNamed).mp htask)
    (Store.nodup_runningTasks filed.taskNamed)

theorem entries_recordExecution (filed : c.Filed) (hash : String) (executed : PcSet) :
    Books.Entries (.recordExecution hash executed : Operation ω) c.ledger.books
      ((recordExecution e hash executed).perform c).2.ledger.books := by
  have houtcome := recordExecution_outcome_of_nodup (e := e) filed.distinct hash executed
  generalize (recordExecution e hash executed).perform c = result at houtcome
  cases houtcome with
  | failed failure => exact .refl
  | repeated htx recorded => exact .refl
  | @recorded before after tx task contract split hashed first unrecorded htask hcontract =>
    have hid : task.id = tx.task := filed.id_eq_of_getTask htask
    rw [← hid] at htask
    have entry : Books.Entry (.recordExecution hash executed : Operation ω) c.ledger.books
        (c.recorded e executed before after tx task contract).ledger.books := by
      rw [Campaign.recorded, ← hid]
      exact .merge (Store.getTask_eq_ok_iff.mp htask)
    unfold Campaign.redriven
    split <;> exact .single entry

theorem books_recordWeaknesses (hash : String) (snapshot : Snapshot) :
    (recordWeaknesses e hash snapshot).Leaves fun c => c.ledger.books := by
  refine .exclusively (.bind (.query _) fun tx => .ite ?_ (.pure _))
  refine .bind (.update fun {c s} h => ?_) fun _ => .pure _
  rw [Store.eq_of_updateTransaction h]
  rfl

/-- No listener writes anything of a task. -/
theorem books_handle (filed : c.Filed) (l : Listener) (task : TaskId) :
    ((handle e l task).perform c).2.ledger.books = c.ledger.books := by
  cases l with
  | deployer =>
    have houtcome :=
      deployTask_outcome_of_named (e := e) filed.taskNamed filed.contractNamed task
    change ((deployTask e task).perform c).2.ledger.books = _
    generalize (deployTask e task).perform c = result at houtcome
    cases houtcome with
    | failed failure source => rfl
    | refused deploying answer => rfl
    | unanalyzed failure hid deploying answer unanalyzed => rfl
    | deployed hid deploying answer hgraph recorded =>
      subst recorded
      rfl
  | fuzzer =>
    have houtcome := submitInputs_outcome_of_named (e := e) filed.taskNamed task
    change ((submitInputs e task).perform c).2.ledger.books = _
    generalize (submitInputs e task).perform c = result at houtcome
    cases houtcome <;> rfl
  | reporter => exact congrArg Ledger.books (ledger_reportTask (e := e) task)

/-- Every operation writes entries, if tasks are registered once and before they are started. -/
theorem Operation.books_perform (filed : c.Filed) {op : Operation ω} (enrolls : op.Enrolls c) :
    Books.Entries op c.ledger.books (op.perform e c).ledger.books := by
  cases op with
  | register task contract =>
    change Books.Entries _ _ ((registerTask task contract).perform c).2.ledger.books
    rcases ledger_registerTask (c := c) task contract with heq | ⟨definition, -, heq⟩
    · exact heq ▸ .refl
    · rw [heq]
      exact .single (.enroll enrolls.1 enrolls.2)
  | start id now =>
    change Books.Entries _ _ ((startTask id now).perform c).2.ledger.books
    rcases ledger_startTask_of_named filed.taskNamed id now with
      heq | ⟨task, rfl, htask, created, heq⟩
    · exact heq ▸ .refl
    · rw [heq]
      exact .single (.start (Store.getTask_eq_ok_iff.mp htask) created)
  | check now => exact entries_checkTasks filed now
  | deliver l =>
    change Books.Entries _ _ ((ContractFuzz.deliver e l).run c).2.ledger.books
    rcases ledger_deliver (e := e) (c := c) l with ⟨task, -, heq⟩ | heq
    · have hsame := c.ledger_setTopic_receive l 0
      rw [heq, books_handle (filed.of_ledger hsame), hsame]
    · rw [heq]
  | recordExecution hash executed => exact entries_recordExecution filed hash executed
  | recordWeaknesses hash snapshot =>
    have same : ((ContractFuzz.recordWeaknesses e hash snapshot).perform c).2.ledger.books = _ :=
      books_recordWeaknesses hash snapshot c
    exact same ▸ .refl
  | outside world => exact .refl

end ContractFuzz
