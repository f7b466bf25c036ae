import ContractFuzz.Proofs.Campaign.Books
import ContractFuzz.Proofs.Campaign.ServiceCalls
import Mathlib.Data.List.Infix
/-!
# The life cycle of tasks

Whatever is done to campaigns, tasks are started once and finished once, and both is announced once.
So at most one report is sent on every task, and nothing but deployments is ever sent to the node
for a task that is not running.

## Main definitions

* `Operation.sent` : the reports of an operation, with their tasks.
* `Campaign.Course` : the states that operations lead to, and all reports on the way there.
* `Campaign.Announced` : the times of a task and the announcements go with its status.

## Main results

* `Operation.new_transaction` : what a new transaction is for.
* `Campaign.Received.perform` : reports are sent on different tasks.
* `Campaign.Course.task_life_cycle` : the life cycle of tasks over whole runs.
-/

namespace ContractFuzz

open Activity

variable {ω : Type} {e : Engine ω} {c c' : Campaign ω}

/-! ### New transactions -/

/-- The transaction is a deployment: it calls the constructor of the contract of its task, and
nothing is waited for. -/
def Transaction.Deploys (tx : Transaction) (s : Store) : Prop :=
  ∃ k f, s.contractOfTask tx.task = .ok k ∧ s.constructorOf k.id = .ok f ∧ tx.function = f.id ∧
    tx.status = .done

/-- The transaction is a deployment, or its task is running. -/
def Transaction.IsFor (tx : Transaction) (s : Store) : Prop :=
  tx.Deploys s ∨ ∃ t, s.getTask tx.task = .ok t ∧ t.status = .running

theorem new_of_deployTask (filed : c.Filed) (id : TaskId) {tx : Transaction}
    (htx : tx ∈ ((deployTask e id).perform c).2.store.transactions)
    (new : tx ∉ c.store.transactions) : tx.IsFor c.store := by
  have houtcome := deployTask_outcome_of_named (e := e) filed.taskNamed filed.contractNamed id
  generalize (deployTask e id).perform c = result at houtcome htx
  -- The transaction that records an accepted deployment calls the constructor.
  have recorded : ∀ {task contract constructor values texts source} (now : Instant) (hash : String),
      Deploying e c task contract constructor values texts source →
      tx ∈ c.store.transactions ++ [.deployment ⟨c.nextTransaction⟩ task.id constructor.id texts now
        hash] → tx.IsFor c.store := by
    intro task contract constructor values texts source now hash deploying hmem
    rcases List.mem_append.mp hmem with hold | hlast
    · exact absurd hold new
    · obtain rfl := List.mem_singleton.mp hlast
      exact .inl ⟨contract, constructor, deploying.hcontract, deploying.hconstructor, rfl, rfl⟩
  cases houtcome with
  | failed failure source => exact absurd htx new
  | refused deploying answer => exact absurd htx new
  | unanalyzed failure hid deploying answer unanalyzed => exact recorded _ _ deploying htx
  | deployed hid deploying answer hgraph hrecorded =>
    subst hrecorded
    exact recorded _ _ deploying htx

theorem new_of_submitInputs (filed : c.Filed) (id : TaskId) {tx : Transaction}
    (htx : tx ∈ ((submitInputs e id).perform c).2.store.transactions)
    (new : tx ∉ c.store.transactions) : tx.IsFor c.store := by
  have houtcome := submitInputs_outcome_of_named (e := e) filed.taskNamed id
  generalize (submitInputs e id).perform c = result at houtcome htx
  cases houtcome with
  | failed failure source => exact absurd htx new
  | idle htask idle => exact absurd htx new
  | @submitted task contract function generated source outcome world hid submitting answer =>
    rcases List.mem_append.mp htx with hold | hlast
    · exact absurd hold new
    · obtain ⟨number, time, seed, -, heq⟩ := Ledger.exists_of_mem_batch hlast
      have htask : tx.task = task.id := by
        rw [heq]
        exact (Ledger.apply_same outcome _).2
      exact .inr ⟨task, htask ▸ submitting.htask, Task.isRunning_iff.mp submitting.running⟩

/-- What leaves the outline adds no transactions. -/
private theorem not_new_of_leaves {α : Type} {p : Activity ω α} (h : p.Leaves Campaign.outline)
    (c : Campaign ω) {tx : Transaction} (htx : tx ∈ (p.perform c).2.store.transactions)
    (new : tx.id ∉ c.store.transactions.map (·.id)) : tx.IsFor c.store :=
  absurd (Campaign.ids_eq_of_outline (h c) ▸ List.mem_map_of_mem htx) new

/-- Every transaction that is new after an operation is a deployment, or was created for a running
task. -/
theorem Operation.new_transaction (filed : c.Filed) (op : Operation ω) {tx : Transaction}
    (htx : tx ∈ (op.perform e c).store.transactions)
    (new : tx.id ∉ c.store.transactions.map (·.id)) : tx.IsFor c.store := by
  have unknown : tx ∉ c.store.transactions := fun hmem => new (List.mem_map_of_mem hmem)
  cases op with
  | register task contract =>
    change tx ∈ ((registerTask task contract).perform c).2.ledger.store.transactions at htx
    rcases ledger_registerTask (c := c) task contract with heq | ⟨definition, -, heq⟩ <;>
      rw [heq] at htx <;> exact absurd htx unknown
  | start task now => exact not_new_of_leaves (leaves_startTask task now) c htx new
  | check now => exact not_new_of_leaves (leaves_checkTasks now) c htx new
  | deliver l =>
    change tx ∈ ((ContractFuzz.deliver e l).run c).2.ledger.store.transactions at htx
    rcases ledger_deliver (e := e) (c := c) l with ⟨task, -, heq⟩ | heq
    · have hsame := c.ledger_setTopic_receive l 0
      have hstore : (c.setTopic l ((c.topic l).receive 0).2).store = c.store :=
        congrArg Ledger.store hsame
      have filed' := filed.of_ledger hsame
      rw [heq] at htx
      rw [← hstore] at unknown new ⊢
      cases l with
      | deployer => exact new_of_deployTask filed' task htx unknown
      | fuzzer => exact new_of_submitInputs filed' task htx unknown
      | reporter => exact not_new_of_leaves (leaves_reportTask task) _ htx new
    · rw [heq] at htx
      exact absurd htx unknown
  | recordExecution hash executed =>
    exact not_new_of_leaves (leaves_recordExecution hash executed) c htx new
  | recordWeaknesses hash snapshot =>
    exact not_new_of_leaves (leaves_recordWeaknesses hash snapshot) c htx new
  | outside world => exact absurd htx unknown

/-! ### Reports -/

/-- The reports that are delivered during an operation, with the tasks that they are on. -/
def Operation.sent (e : Engine ω) (op : Operation ω) (c : Campaign ω) :
    List (TaskId × TaskReport) :=
  (op.finishing c).toList.flatMap fun task => (op.reports e c).map fun report => (task, report)

namespace Operation

/-- Every report is on a task. -/
theorem reports_eq_map_sent (op : Operation ω) : op.reports e c = (op.sent e c).map Prod.snd := by
  unfold sent
  cases hfinishing : op.finishing c with
  | none =>
    rw [reports_eq, hfinishing]
    rfl
  | some task =>
    rw [Option.toList_some, List.flatMap_singleton, List.map_map]
    exact (List.map_id _).symm

theorem sent_of_finishing_eq_none {op : Operation ω} (h : op.finishing c = none) :
    op.sent e c = [] := by
  rw [sent, h]
  rfl

/-- An event on a task leads to one report on it at most, its summary. -/
theorem sent_of_finishing {op : Operation ω} {task : TaskId} (h : op.finishing c = some task) :
    op.sent e c = ((c.store.report task).toOption.map fun report => (task, report)).toList := by
  rw [sent, reports_eq, h, Option.toList_some, List.flatMap_singleton, Option.bind_some]
  cases c.store.report task <;> rfl

end Operation

/-- A report that is sent is the summary of the task that the reporter is told of. -/
theorem Operation.finishing_of_mem_sent {op : Operation ω} {task : TaskId} {report : TaskReport}
    (h : (task, report) ∈ op.sent e c) :
    op.finishing c = some task ∧ c.store.report task = .ok report := by
  cases hfinishing : op.finishing c with
  | none =>
    rw [sent_of_finishing_eq_none hfinishing] at h
    cases h
  | some task' =>
    rw [sent_of_finishing hfinishing] at h
    cases hreport : c.store.report task' with
    | error failure =>
      rw [hreport] at h
      cases h
    | ok report' =>
      rw [hreport] at h
      obtain ⟨rfl, rfl⟩ := Prod.mk.inj (List.mem_singleton.mp h)
      exact ⟨rfl, hreport⟩

/-- The reports of several operations, one after the other. -/
def Operation.sentAll (e : Engine ω) : List (Operation ω) → Campaign ω → List (TaskId × TaskReport)
  | [], _ => []
  | op :: rest, c => op.sent e c ++ sentAll e rest (op.perform e c)

/-- Only the reporter comes further on its topic, when it gets an event. -/
theorem Operation.finishes_subscribers_perform {op : Operation ω} (h : op ≠ .deliver .reporter) :
    (op.perform e c).finishes.subscribers = c.finishes.subscribers := by
  have of_readers {c' : Campaign ω} (same : c'.readers = c.readers) :
      c'.finishes.subscribers = c.finishes.subscribers := congrFun same .reporter
  have of_outline {c' : Campaign ω} (same : c'.outline = c.outline) :
      c'.finishes.subscribers = c.finishes.subscribers :=
    of_readers (Campaign.readers_eq_of_outline same)
  cases op with
  | register task contract =>
    have leaves : (registerTask task contract : Activity ω TaskId).Leaves Campaign.readers :=
      .bind (.ofExcept _) fun _ => .bind (fun _ => rfl) fun _ => .bind (fun _ => rfl) fun _ =>
        .bind (fun _ => rfl) fun _ => .bind (fun _ => rfl) fun _ => .pure _
    exact of_readers (leaves c)
  | start task now => exact of_outline (leaves_startTask task now c)
  | check now => exact of_outline (leaves_checkTasks now c)
  | deliver l =>
    have hreaders := congrFun (readers_deliver (e := e) c l) .reporter
    refine hreaders.trans ?_
    cases l with
    | deployer => rfl
    | fuzzer => rfl
    | reporter => exact absurd rfl h
  | recordExecution hash executed => exact of_outline (leaves_recordExecution hash executed c)
  | recordWeaknesses hash snapshot => exact of_outline (leaves_recordWeaknesses hash snapshot c)
  | outside world => rfl

namespace Topic

variable {ε : Type} {t : Topic ε} {position : Nat}

/-- The only subscriber gets the event at its place. -/
theorem receive_of_some (subscribed : t.subscribers = [⟨position, true⟩]) {x : ε}
    (h : t.published[position]? = some x) :
    t.receive 0 = (.event x, { t with subscribers := [⟨position + 1, true⟩] }) := by
  rw [receive_event (by rw [subscribed]; rfl) h, subscribed]
  rfl

theorem receive_of_none (subscribed : t.subscribers = [⟨position, true⟩])
    (h : t.published[position]? = none) : t.receive 0 = (.nothing, t) :=
  receive_nothing (by rw [subscribed]; rfl) h

end Topic

namespace Campaign

/-- There were reports on these tasks, one for each of some of the events that the reporter has
received. -/
def Received (c : Campaign ω) (ids : List TaskId) : Prop :=
  ∃ position, c.finishes.subscribers = [⟨position, true⟩] ∧
    ids.Sublist (c.finishes.published.take position)

theorem received_initial (world : ω) (deployer fuzzer : Source) :
    (initial world deployer fuzzer).Received [] :=
  ⟨0, rfl, .slnil⟩

/-- Further events may be published that the reporter has not received. -/
theorem Received.mono {ids : List TaskId} (h : c.Received ids)
    (subscribers : c'.finishes.subscribers = c.finishes.subscribers)
    (published : c.finishes.published <+: c'.finishes.published) : c'.Received ids := by
  obtain ⟨position, subscribed, sublist⟩ := h
  exact ⟨position, subscribers.trans subscribed,
    sublist.trans (published.take position).sublist⟩

/-- A delivery reports on the task of the next event at most. -/
theorem Received.deliver {ids : List TaskId} (h : c.Received ids)
    (subscribers : c'.finishes.subscribers = (c.finishes.receive 0).2.subscribers)
    (published : c.finishes.published <+: c'.finishes.published) :
    c'.Received (ids ++ ((Operation.deliver .reporter).sent e c).map Prod.fst) := by
  obtain ⟨position, subscribed, sublist⟩ := h
  cases hnext : c.finishes.published[position]? with
  | none =>
    have received := Topic.receive_of_none subscribed hnext
    have finishing : (Operation.deliver .reporter : Operation ω).finishing c = none := by
      rw [Operation.finishing, received]
    rw [Operation.sent_of_finishing_eq_none finishing, List.map_nil, List.append_nil]
    rw [received] at subscribers
    exact Received.mono ⟨position, subscribed, sublist⟩ subscribers published
  | some task =>
    have received := Topic.receive_of_some subscribed hnext
    have finishing : (Operation.deliver .reporter : Operation ω).finishing c = some task :=
      Operation.finishing_deliver (congrArg Prod.fst received)
    have one : (((Operation.deliver .reporter).sent e c).map Prod.fst).Sublist [task] := by
      rw [Operation.sent_of_finishing finishing]
      cases c.store.report task with
      | ok report => exact .refl _
      | error failure => exact List.nil_sublist _
    rw [received] at subscribers
    refine ⟨position + 1, subscribers, ?_⟩
    refine List.Sublist.trans ?_ (published.take (position + 1)).sublist
    rw [List.take_add_one, hnext]
    exact sublist.append one

/-- Every operation reports on tasks for whose events it did not report before. -/
theorem Received.perform {ids : List TaskId} (h : c.Received ids) (filed : c.Filed)
    {op : Operation ω} (enrolls : op.Enrolls c) :
    (op.perform e c).Received (ids ++ (op.sent e c).map Prod.fst) := by
  have published : c.finishes.published <+: (op.perform e c).finishes.published :=
    (Operation.books_perform filed enrolls).prefix_of_finishes
  by_cases hop : op = .deliver .reporter
  · subst hop
    exact h.deliver (congrFun (readers_deliver c .reporter) .reporter) published
  · have finishing : op.finishing c = none :=
      Option.eq_none_iff_forall_ne_some.mpr fun _ h => hop (Operation.received_of_finishing h).1
    rw [Operation.sent_of_finishing_eq_none finishing, List.map_nil, List.append_nil]
    exact h.mono (Operation.finishes_subscribers_perform hop) published

/-! ### Runs -/

/-- The states that operations lead to from a given one when tasks are registered once and before
they are started, and all reports that are sent on the way. -/
inductive Course (e : Engine ω) (c : Campaign ω) :
    List (TaskId × TaskReport) → Campaign ω → Prop
  | now : Course e c [] c
  | step {sent : List (TaskId × TaskReport)} {c' : Campaign ω} (course : Course e c sent c')
      (op : Operation ω) (enrolls : op.Enrolls c') :
      Course e c (sent ++ op.sent e c') (op.perform e c')

/-- The times of the task go with its status, its start was announced exactly if it was started, and
its end exactly if it is done, once each. -/
structure Announced (c : Campaign ω) (t : Task) : Prop where
  timed : t.Timed
  starts : c.starts.published.count t.id = t.startCount
  finishes : c.finishes.published.count t.id = t.finishCount

namespace Course

variable {sent : List (TaskId × TaskReport)}

theorem performAll (h : Course e c sent c') {ops : List (Operation ω)}
    (enrolls : ∀ op ∈ ops, ∀ c, op.Enrolls c) :
    Course e c (sent ++ Operation.sentAll e ops c') (Operation.performAll e ops c') := by
  induction ops generalizing c' sent with
  | nil => exact (List.append_nil sent).symm ▸ h
  | cons op rest ih =>
    rw [Operation.sentAll, ← List.append_assoc]
    exact ih (h.step op (enrolls op List.mem_cons_self c')) fun other hother =>
      enrolls other (List.mem_cons_of_mem _ hother)

theorem filed (h : Course e c sent c') (filed : c.Filed) : c'.Filed := by
  induction h with
  | now => exact filed
  | step _ op _ ih => exact ih.perform op

theorem balanced (h : Course e c sent c') (filed : c.Filed) (balanced : c.ledger.books.Balanced) :
    c'.ledger.books.Balanced := by
  induction h with
  | now => exact balanced
  | step before op enrolls ih =>
    exact (Operation.books_perform (before.filed filed) enrolls).balanced ih

/-- Tasks only move on. -/
theorem continues (h : Course e c sent c') (filed : c.Filed) :
    c.ledger.books.TasksContinue (fun _ => Relation.ReflTransGen TaskStatus.Next)
      c'.ledger.books := by
  induction h with
  | now => exact fun id t ht => ⟨t, ht, .refl _ (fun _ => .refl) t⟩
  | step before op enrolls ih =>
    intro id t ht
    obtain ⟨t₁, ht₁, first⟩ := ih id t ht
    obtain ⟨t₂, ht₂, second⟩ :=
      (Operation.books_perform (e := e) (before.filed filed) enrolls).continues id t₁ ht₁
    exact ⟨t₂, ht₂, first.trans second.overall⟩

theorem received (h : Course e c sent c') (filed : c.Filed) (received : c.Received []) :
    c'.Received (sent.map Prod.fst) := by
  induction h with
  | now => exact received
  | step before op enrolls ih =>
    rw [List.map_append]
    exact ih.perform (before.filed filed) enrolls

end Course

theorem balanced_initial (world : ω) (deployer fuzzer : Source) :
    (initial world deployer fuzzer).ledger.books.Balanced where
  named ht := by cases ht
  timed ht := by cases ht
  starts _ := rfl
  finishes _ := rfl

/-- In every state of a run in which tasks are registered once and before they are started, the
times of every task go with its status, its start and its end were announced once if they have
happened and not before, and no two reports were sent on one task. On the way to every later state,
tasks move on from created over running to done, and keep their times once they were started. A
further start changes nothing. Every single operation takes a task one step further at most; it
sends summaries of tasks that are done, if any; and its new transactions are deployments or belong
to running tasks. -/
theorem Course.task_life_cycle {world : ω} {deployer fuzzer : Source}
    {sent : List (TaskId × TaskReport)}
    (reached : Course e (initial world deployer fuzzer) sent c) :
    (∀ id t, c.store.getTask id = .ok t → t.id = id ∧ c.Announced t) ∧
    (sent.map Prod.fst).Nodup ∧
    (∀ more c', Course e c more c' → ∀ id t, c.store.getTask id = .ok t →
      ∃ t', c'.store.getTask id = .ok t' ∧
        t.Continues (Relation.ReflTransGen TaskStatus.Next) t') ∧
    (∀ id t now, c.store.getTask id = .ok t → t.status ≠ .created →
      (startTask id now).perform c = (.ok (), { c with log := c.log ++ [.alreadyStarted] })) ∧
    ∀ op : Operation ω, op.Enrolls c →
      (∀ id t, c.store.getTask id = .ok t → ∃ t', (op.perform e c).store.getTask id = .ok t' ∧
        t.Continues (Relation.ReflGen (op.Moves id)) t') ∧
      op.reports e c = (op.sent e c).map Prod.snd ∧
      (∀ id report, (id, report) ∈ op.sent e c →
        c.store.report id = .ok report ∧ ∃ t, c.store.getTask id = .ok t ∧ t.status = .done) ∧
      ∀ tx ∈ (op.perform e c).store.transactions, tx.id ∉ c.store.transactions.map (·.id) →
        tx.IsFor c.store := by
  have filed := reached.filed (filed_initial world deployer fuzzer)
  have balanced := reached.balanced (filed_initial world deployer fuzzer)
    (balanced_initial world deployer fuzzer)
  refine ⟨fun id t ht => ?_, ?_, fun more c' course id t ht => ?_, fun id t now ht started =>
    perform_startTask_of_started ht started now, fun op enrolls => ⟨fun id t ht => ?_,
      op.reports_eq_map_sent, fun id report hsent => ?_, fun tx htx new =>
        op.new_transaction filed htx new⟩⟩
  · have hstored := Store.getTask_eq_ok_iff.mp ht
    obtain rfl := filed.taskNamed hstored
    exact ⟨rfl, balanced.timed hstored, balanced.starts_eq hstored, balanced.finishes_eq hstored⟩
  · obtain ⟨position, -, sublist⟩ := reached.received (filed_initial world deployer fuzzer)
      (received_initial world deployer fuzzer)
    exact (sublist.trans (List.take_sublist _ _)).nodup balanced.nodup_finishes
  · obtain ⟨t', ht', continues⟩ := course.continues filed id t (Store.getTask_eq_ok_iff.mp ht)
    exact ⟨t', Store.getTask_eq_ok_iff.mpr ht', continues⟩
  · have entries := Operation.books_perform (e := e) filed enrolls
    obtain ⟨t', ht', continues⟩ := entries.continues id t (Store.getTask_eq_ok_iff.mp ht)
    exact ⟨t', Store.getTask_eq_ok_iff.mpr ht', continues⟩
  · obtain ⟨finishing, hreport⟩ := Operation.finishing_of_mem_sent hsent
    have told := Topic.mem_published_of_receive (Operation.received_of_finishing finishing).2
    obtain ⟨t, ht, done⟩ := balanced.done_of_mem_finishes told
    exact ⟨hreport, t, Store.getTask_eq_ok_iff.mpr ht, done⟩

/-- What is done once the task of the short campaign is registered, until it is reported on. -/
def switchLife : List (Operation World) :=
  switchOperations ++ [.check (.ofMillis 60000), .deliver .reporter]

/-- The state in which the task is registered. -/
def switchRegistered : Campaign World :=
  (Operation.register switchTask switchContract).perform switchEngine
    (initial switchWorld (.ofSeed 0) (.ofSeed 0))

/-- The state in which it is reported on. -/
def switchReported : Campaign World :=
  Operation.performAll switchEngine switchLife switchRegistered

theorem course_switchReported :
    Course switchEngine (initial switchWorld (.ofSeed 0) (.ofSeed 0))
      (Operation.sentAll switchEngine switchLife switchRegistered) switchReported := by
  have registered : Course switchEngine (initial switchWorld (.ofSeed 0) (.ofSeed 0)) ([] ++ _)
      switchRegistered :=
    Course.now.step (.register switchTask switchContract) ⟨rfl, rfl, rfl, rfl⟩
  rw [Operation.sent_of_finishing_eq_none rfl] at registered
  rw [← List.nil_append (Operation.sentAll switchEngine switchLife switchRegistered)]
  refine registered.performAll fun op hop c => ?_
  simp only [switchLife, switchOperations, List.cons_append, List.nil_append, List.mem_cons,
    List.not_mem_nil, or_false] at hop
  rcases hop with rfl | rfl | rfl | rfl | rfl | rfl | rfl | rfl | rfl <;> exact trivial

/-- The task of the short campaign is done at the end, there was one report on it, and starting it
again does nothing. -/
theorem task_life_cycle_switchReported :
    (Operation.sentAll switchEngine switchLife switchRegistered).map Prod.fst = [⟨0⟩] ∧
      ∃ t, switchReported.store.getTask ⟨0⟩ = .ok t ∧ t.status = .done ∧
        switchReported.Announced t ∧
        (startTask ⟨0⟩ .epoch).perform switchReported =
          (.ok (), { switchReported with log := switchReported.log ++ [.alreadyStarted] }) := by
  have done : (switchReported.store.getTask ⟨0⟩).toOption.map (·.status) = some .done := by
    decide +kernel
  obtain ⟨t, ht, hdone⟩ := exists_of_toOption done
  obtain ⟨announced, -, -, restarted, -⟩ := course_switchReported.task_life_cycle
  refine ⟨by decide +kernel, t, ht, hdone, (announced ⟨0⟩ t ht).2, restarted ⟨0⟩ t .epoch ht ?_⟩
  rw [hdone]
  exact nofun

end Campaign

end ContractFuzz
