import ContractFuzz.Proofs.Campaign.Reachable
/-!
# Calls of services

What campaigns ask of the node, of the decompiler and of the report sink. Every world can be
extended by notes of all that it is asked for. Campaigns go the same way in the extended world, and
what an operation adds to the notes are its calls of services.

## Main definitions

* `ServiceCall` : a call of a service.
* `Engine.noting`, `Campaign.noting` : engines and campaigns in a world with notes.
* `Operation.serviceCalls`, `Operation.reports` : the calls and the reports of an operation.
* `ServiceCall.IsDue` : a delivered report is the summary of a stored task.
* `Activity.Noted` : an activity and the same one in a world with notes, whose new notes satisfy a
  condition.
* `Operation.finishing`, `Store.report` : the task that an operation reports on, and its summary.

## Main results

* `Operation.perform_noting` : with notes, an operation does the same and notes its calls.
* `Operation.isDue_of_mem_serviceCalls` : all its calls are due.
* `Operation.reports_eq` : the reports of an operation are known before it is carried out.
-/

namespace ContractFuzz

open Activity

variable {ω α β : Type}

/-- A call of a service. -/
inductive ServiceCall where
  /-- Deploy a contract with constructor arguments. -/
  | deploy (contract : Contract) (arguments : List Value)
  /-- Call a function of a contract once for every transaction. -/
  | submit (contract : Contract) (function : String) (inputs : List (TransactionId × List Value))
  /-- Recover the blocks of a contract. -/
  | decompile (contract : Contract)
  /-- Deliver a report. -/
  | deliver (report : TaskReport)

/-- The report that is delivered, if the call delivers one. -/
def ServiceCall.report? : ServiceCall → Option TaskReport
  | deliver report => some report
  | _ => none

/-- A call in a world with notes: the answer is the one without them, and the call is noted. -/
def ServiceCall.note (call : ServiceCall) (ask : ω → α × ω) (w : ω × List ServiceCall) :
    α × (ω × List ServiceCall) :=
  ((ask w.1).1, (ask w.1).2, w.2 ++ [call])

/-- The engine in the world with notes. -/
def Engine.noting (e : Engine ω) : Engine (ω × List ServiceCall) where
  config := e.config
  services :=
    { deploy contract arguments :=
        (ServiceCall.deploy contract arguments).note (e.services.deploy contract arguments)
      submit contract function inputs :=
        (ServiceCall.submit contract function inputs).note
          (e.services.submit contract function inputs)
      decompile contract := (ServiceCall.decompile contract).note (e.services.decompile contract)
      deliver report := (ServiceCall.deliver report).note (e.services.deliver report)
      clock w := e.services.clock w.1 }

/-- The campaigns in the world with notes. -/
def Campaign.noting (c : Campaign ω) (notes : List ServiceCall) :
    Campaign (ω × List ServiceCall) :=
  { c with world := (c.world, notes) }

namespace Operation

/-- The operation in the world with notes. -/
def noting (notes : List ServiceCall) : Operation ω → Operation (ω × List ServiceCall)
  | register task contract => .register task contract
  | start task now => .start task now
  | check now => .check now
  | deliver l => .deliver l
  | recordExecution hash executed => .recordExecution hash executed
  | recordWeaknesses hash snapshot => .recordWeaknesses hash snapshot
  | outside world => .outside (world, notes)

/-- The calls of services during an operation: what it adds to empty notes. -/
def serviceCalls (e : Engine ω) (op : Operation ω) (c : Campaign ω) : List ServiceCall :=
  ((op.noting []).perform e.noting (c.noting [])).world.2

/-- The reports that are delivered during an operation. -/
def reports (e : Engine ω) (op : Operation ω) (c : Campaign ω) : List TaskReport :=
  (op.serviceCalls e c).filterMap ServiceCall.report?

theorem mem_reports {e : Engine ω} {op : Operation ω} {c : Campaign ω} {r : TaskReport} :
    r ∈ op.reports e c ↔ .deliver r ∈ op.serviceCalls e c := by
  refine List.mem_filterMap.trans ⟨?_, fun h => ⟨_, h, rfl⟩⟩
  rintro ⟨call, hcall, hreport⟩
  cases call <;> cases hreport
  exact hcall

end Operation

/-- The delivery of a report is due if the report is the summary of a stored task, with the contract
and the transactions that are stored for the task. Other calls are always due. -/
def ServiceCall.IsDue (s : Store) : ServiceCall → Prop
  | deliver report => ∃ id task contract, s.getTask id = .ok task ∧
      s.contractOfTask task.id = .ok contract ∧
      report = .build task contract (s.transactionsOf task.id)
  | _ => True

theorem ServiceCall.isDue_of_report?_eq_none {s : Store} {call : ServiceCall}
    (h : call.report? = none) : call.IsDue s := by
  cases call with
  | deliver report => cases h
  | _ => exact trivial

/-! ### Activities with notes -/

/-- In the world with notes, `q` goes the same way as `p` does without, and what it notes satisfies
the condition `Due`. -/
def Activity.Noted (Due : ServiceCall → Prop) (p : Activity ω α)
    (q : Activity (ω × List ServiceCall) α) (c : Campaign ω) : Prop :=
  ∃ new : List ServiceCall, (∀ call ∈ new, Due call) ∧
    ∀ notes, q.perform (c.noting notes) = ((p.perform c).1, (p.perform c).2.noting (notes ++ new))

namespace Activity.Noted

variable {Due : ServiceCall → Prop} {c : Campaign ω} {p : Activity ω α}
  {q : Activity (ω × List ServiceCall) α} {k : α → Activity ω β}
  {k' : α → Activity (ω × List ServiceCall) β}

/-- An activity without a call of a service. -/
theorem quiet (h : ∀ notes, q.perform (c.noting notes) =
    ((p.perform c).1, (p.perform c).2.noting notes)) : Noted Due p q c :=
  ⟨[], fun _ hcall => absurd hcall List.not_mem_nil, fun notes => by rw [List.append_nil, h]⟩

/-- An activity with a single call. -/
theorem single (call : ServiceCall) (due : Due call) (h : ∀ notes, q.perform (c.noting notes) =
    ((p.perform c).1, (p.perform c).2.noting (notes ++ [call]))) : Noted Due p q c :=
  ⟨[call], fun _ hcall => List.mem_singleton.mp hcall ▸ due, h⟩

theorem pure (a : α) : Noted Due (Pure.pure a : Activity ω α) (Pure.pure a) c := quiet fun _ => rfl

/-- One activity after the other: the calls of the first one come first. -/
theorem bind (h : Noted Due p q c)
    (hk : ∀ a c', p.perform c = (.ok a, c') → Noted Due (k a) (k' a) c') :
    Noted Due (p >>= k) (q >>= k') c := by
  obtain ⟨new, due, hq⟩ := h
  cases hp : p.perform c with
  | mk answer c' =>
    rw [hp] at hq
    cases answer with
    | error e =>
      refine ⟨new, due, fun notes => ?_⟩
      rw [perform_bind_of_error (hq notes), perform_bind_of_error hp]
    | ok a =>
      obtain ⟨more, moreDue, hk⟩ := hk a c' hp
      refine ⟨new ++ more, fun call hcall => ?_, fun notes => ?_⟩
      · exact (List.mem_append.mp hcall).elim (due call) (moreDue call)
      · rw [perform_bind_of_ok (hq notes), hk, perform_bind_of_ok hp, List.append_assoc]

theorem quiet_bind
    (h : ∀ notes, q.perform (c.noting notes) = ((p.perform c).1, (p.perform c).2.noting notes))
    (hk : ∀ a c', Noted Due (k a) (k' a) c') : Noted Due (p >>= k) (q >>= k') c :=
  (quiet h).bind fun a c' _ => hk a c'

/-- What follows a look at the records may rely on what was seen. -/
theorem query_bind {f : Store → Except Failure α} (hk : ∀ a, f c.store = .ok a →
    Noted Due (k a) (k' a) c) : Noted Due (query f >>= k) (query f >>= k') c := by
  refine (quiet fun _ => rfl).bind fun a c' h => ?_
  rw [perform_query] at h
  obtain ⟨ha, rfl⟩ := Prod.mk.inj h
  exact hk a ha

theorem ite {condition : Prop} [Decidable condition] {p' : Activity ω α}
    {q' : Activity (ω × List ServiceCall) α} (hpos : Noted Due p q c) (hneg : Noted Due p' q' c) :
    Noted Due (if condition then p else p') (if condition then q else q') c := by
  split
  · exact hpos
  · exact hneg

theorem commit (f : Store → Except Failure (α × Store)) :
    Noted Due (Activity.commit f) (Activity.commit f) c := by
  refine quiet fun notes => ?_
  have store : f (c.noting notes).store = f c.store := rfl
  rw [perform_commit, perform_commit, store]
  cases f c.store <;> rfl

theorem publish (l : Listener) (task : TaskId) :
    Noted Due (Activity.publish l task) (Activity.publish l task) c := by
  cases l <;> exact quiet fun _ => rfl

theorem forM_warn (warnings : List Warning) :
    Noted Due (warnings.forM warn) (warnings.forM warn) c := by
  refine quiet fun notes => ?_
  rw [perform_forM_warn, perform_forM_warn]
  rfl

theorem exclusively (h : Noted Due p q c) :
    Noted Due (Activity.exclusively p) (Activity.exclusively q) c := by
  unfold Noted
  simp only [perform_exclusively]
  exact h

end Activity.Noted

/-! ### The activities of campaigns -/

variable {e : Engine ω} {Due : ServiceCall → Prop} {c : Campaign ω}

theorem noted_registerTask (task : Task) (contract : Contract) :
    Noted Due (registerTask task contract) (registerTask task contract) c := by
  unfold registerTask
  refine .quiet_bind (fun _ => rfl) fun definition _ => ?_
  refine .quiet_bind (fun _ => rfl) fun first _ => ?_
  refine .quiet_bind (fun _ => rfl) fun _ _ => ?_
  refine .quiet_bind (fun _ => rfl) fun _ _ => ?_
  exact .quiet_bind (fun _ => rfl) fun _ _ => .pure _

theorem noted_startTask (id : TaskId) (now : Instant) :
    Noted Due (startTask id now) (startTask id now) c := by
  unfold startTask
  refine .quiet_bind (fun _ => rfl) fun task _ => .ite ?_ (.quiet fun _ => rfl)
  exact .bind (.commit _) fun _ _ _ => .bind (.publish _ _) fun _ _ _ => .pure _

theorem noted_recordExecution (hash : String) (executed : PcSet) :
    Noted Due (recordExecution e hash executed) (recordExecution e.noting hash executed) c := by
  unfold recordExecution
  refine .exclusively (.quiet_bind (fun _ => rfl) fun tx _ => .ite (.pure _) ?_)
  refine .quiet_bind (fun _ => rfl) fun task _ => .quiet_bind (fun _ => rfl) fun contract _ => ?_
  refine .bind (.commit _) fun _ _ _ => .bind (.commit _) fun task _ _ => ?_
  refine .ite (.quiet_bind (fun _ => rfl) fun pending _ => .ite ?_ ?_) ?_
  · exact .bind (.publish _ _) fun _ _ _ => .pure _
  · exact .pure _
  · exact .pure _

theorem noted_expireStale (task : TaskId) (cutoff : Instant) :
    Noted Due (expireStale task cutoff) (expireStale task cutoff) c := by
  unfold expireStale
  refine .exclusively (.quiet_bind (fun _ => rfl) fun txs _ => .ite (.pure _) ?_)
  exact .bind (.commit _) fun _ _ _ => .pure _

theorem noted_recordWeaknesses (hash : String) (snapshot : Snapshot) :
    Noted Due (recordWeaknesses e hash snapshot) (recordWeaknesses e.noting hash snapshot) c := by
  unfold recordWeaknesses
  refine .exclusively (.quiet_bind (fun _ => rfl) fun tx _ => .ite ?_ (.pure _))
  exact .bind (.commit _) fun _ _ _ => .pure _

theorem noted_checkTask (now : Instant) (task : Task) :
    Noted Due (checkTask e now task) (checkTask e.noting now task) c := by
  unfold checkTask
  refine .ite ?_ ?_
  · exact .bind (.commit _) fun _ _ _ => .bind (.publish _ _) fun _ _ _ => .pure _
  refine .quiet_bind (fun _ => rfl) fun contract _ => .ite (.pure _) ?_
  refine .bind (noted_expireStale _ _) fun timedOut _ _ => ?_
  refine .quiet_bind (fun _ => rfl) fun pending _ => .ite (.pure _) ?_
  exact .bind (.publish _ _) fun _ _ _ => .pure _

theorem noted_checkTasks (now : Instant) :
    Noted Due (checkTasks e now) (checkTasks e.noting now) c := by
  have each : ∀ (tasks : List Task) {c},
      Noted Due (checkEach e now tasks) (checkEach e.noting now tasks) c := by
    intro tasks
    induction tasks with
    | nil => exact .pure _
    | cons task rest ih =>
      exact .bind (noted_checkTask now task) fun _ _ _ => .bind ih fun _ _ _ => .pure _
  unfold checkTasks
  exact .quiet_bind (fun _ => rfl) fun tasks _ => each tasks

section Silent

variable (silent : ∀ call : ServiceCall, call.report? = none → Due call)

include silent

theorem noted_analyze (contract : Contract) :
    Noted Due (analyze e contract) (analyze e.noting contract) c := by
  unfold analyze
  refine .ite (.pure _) ?_
  refine .bind (.single (.decompile contract) (silent _ rfl) fun _ => rfl) fun blocks _ _ => ?_
  exact .quiet_bind (fun _ => rfl) fun graph _ => .pure _

theorem noted_deployTask (id : TaskId) :
    Noted Due (deployTask e id) (deployTask e.noting id) c := by
  unfold deployTask
  refine .quiet_bind (fun _ => rfl) fun task _ => .quiet_bind (fun _ => rfl) fun contract _ => ?_
  refine .quiet_bind (fun _ => rfl) fun constructor _ => ?_
  refine .quiet_bind (fun _ => rfl) fun definition _ => ?_
  refine .quiet_bind (fun _ => rfl) fun arguments _ => ?_
  refine .bind (.single (.deploy contract arguments.1) (silent _ rfl) fun _ => rfl)
    fun deployment _ _ => ?_
  refine .quiet_bind (fun _ => rfl) fun now _ => .quiet_bind (fun _ => rfl) fun number _ => ?_
  refine .quiet_bind (fun _ => rfl) fun _ _ => .bind (noted_analyze silent _) fun analyzed _ _ => ?_
  refine .bind (.commit _) fun _ _ _ => ?_
  exact .bind (.publish _ _) fun _ _ _ => .pure _

theorem noted_submitBatch (contract : Contract) (task : TaskId) (function : ContractFunction)
    (clock : Nat → Instant) (generated : List (Seed × List Value)) :
    Noted Due (submitBatch e contract task function clock generated)
      (submitBatch e.noting contract task function clock generated) c := by
  unfold submitBatch
  refine .quiet_bind (fun _ => rfl) fun first _ => .quiet_bind (fun _ => rfl) fun _ _ => ?_
  refine .bind (.single (.submit contract function.name _) (silent _ rfl) fun _ => rfl)
    fun outcome _ _ => ?_
  exact .bind (.forM_warn _) fun _ _ _ => .commit _

theorem noted_submitInputs (id : TaskId) :
    Noted Due (submitInputs e id) (submitInputs e.noting id) c := by
  unfold submitInputs
  refine .quiet_bind (fun _ => rfl) fun task _ => .ite ?_ (.pure _)
  refine .quiet_bind (fun _ => rfl) fun contract _ => .quiet_bind (fun _ => rfl) fun _ _ => ?_
  refine .quiet_bind (fun _ => rfl) fun functions _ => ?_
  refine .quiet_bind (fun _ => rfl) fun function _ => .quiet_bind (fun _ => rfl) fun method _ => ?_
  exact .quiet_bind (fun _ => rfl) fun clock _ => .quiet_bind (fun _ => rfl) fun generated _ =>
    noted_submitBatch silent contract task.id function clock generated

end Silent

/-- The summary of the task is the one call, unless the task or its contract are missing. -/
theorem noted_reportTask (id : TaskId) :
    Noted (ServiceCall.IsDue c.store) (reportTask e id) (reportTask e.noting id) c := by
  unfold reportTask
  refine .query_bind fun task htask => .query_bind fun contract hcontract => ?_
  refine .bind (.quiet fun _ => rfl) fun txs c' h => ?_
  rw [perform_view] at h
  obtain ⟨htxs, rfl⟩ := Prod.mk.inj h
  obtain rfl := Except.ok.inj htxs
  exact .single (.deliver (.build task contract (c.store.transactionsOf task.id)))
    ⟨id, task, contract, htask, hcontract, rfl⟩ fun _ => rfl

theorem noted_handle (l : Listener) (id : TaskId) :
    Noted (ServiceCall.IsDue c.store) (handle e l id) (handle e.noting l id) c := by
  cases l with
  | deployer => exact noted_deployTask (fun _ => ServiceCall.isDue_of_report?_eq_none) id
  | fuzzer => exact noted_submitInputs (fun _ => ServiceCall.isDue_of_report?_eq_none) id
  | reporter => exact noted_reportTask id

/-! ### Operations -/

/-- Whatever the notes are, `noted` is `c` with the same calls added to them, all of which satisfy
the condition. -/
def Campaign.IsNoted (Due : ServiceCall → Prop) (c : Campaign ω)
    (noted : List ServiceCall → Campaign (ω × List ServiceCall)) : Prop :=
  ∃ new : List ServiceCall, (∀ call ∈ new, Due call) ∧
    ∀ notes, noted notes = c.noting (notes ++ new)

theorem Campaign.isNoted_noting (Due : ServiceCall → Prop) (c : Campaign ω) :
    c.IsNoted Due c.noting :=
  ⟨[], fun _ hcall => absurd hcall List.not_mem_nil, fun notes => by rw [List.append_nil]⟩

theorem Activity.Noted.isNoted {p : Activity ω α} {q : Activity (ω × List ServiceCall) α}
    (h : Noted Due p q c) :
    (p.perform c).2.IsNoted Due fun notes => (q.perform (c.noting notes)).2 := by
  obtain ⟨new, due, hq⟩ := h
  exact ⟨new, due, fun notes => congrArg Prod.snd (hq notes)⟩

/-- An event is received in both worlds alike, and given up in both or in none. -/
theorem isNoted_deliver {l : Listener} (handled : ∀ task,
    ((c.topic l).receive 0).1 = .event task → Noted Due (handle e l task) (handle e.noting l task)
      (c.setTopic l ((c.topic l).receive 0).2)) :
    ((deliver e l).run c).2.IsNoted Due fun notes =>
      ((deliver e.noting l).run (c.noting notes)).2 := by
  have same : ∀ notes, (c.noting notes).setTopic l ((c.topic l).receive 0).2 =
      (c.setTopic l ((c.topic l).receive 0).2).noting notes := fun _ => by cases l <;> rfl
  have topic : ∀ notes, (c.noting notes).topic l = c.topic l := fun _ => by cases l <;> rfl
  unfold deliver
  simp only [Steps.run_bind, Steps.run_atomically, topic, same]
  cases hevent : ((c.topic l).receive 0).1 with
  | event task =>
    obtain ⟨new, due, hhandle⟩ := handled task hevent
    refine ⟨new, due, fun notes => ?_⟩
    have hboth := hhandle notes
    unfold Activity.perform at hboth
    simp only [Steps.run_bind]
    rw [hboth]
    rcases Steps.run (ExceptT.run (handle e l task)) (c.setTopic l ((c.topic l).receive 0).2)
      with ⟨answer, c'⟩
    cases answer <;> rfl
  | nothing => exact Campaign.isNoted_noting _ _
  | left => exact Campaign.isNoted_noting _ _

namespace Operation

/-- The task that is reported on, if the reporter gets an event. -/
def finishing (c : Campaign ω) : Operation ω → Option TaskId
  | deliver .reporter =>
    match (c.finishes.receive 0).1 with
    | .event task => some task
    | _ => none
  | _ => none

theorem finishing_deliver {task : TaskId} (received : (c.finishes.receive 0).1 = .event task) :
    (deliver .reporter : Operation ω).finishing c = some task := by
  rw [finishing, received]

/-- Reports are sent when the reporter gets an event, and at no other time. -/
theorem received_of_finishing {op : Operation ω} {task : TaskId}
    (h : op.finishing c = some task) :
    op = deliver .reporter ∧ (c.finishes.receive 0).1 = .event task := by
  unfold finishing at h
  split at h
  · split at h
    · next received => exact ⟨rfl, received.trans (congrArg _ (Option.some.inj h))⟩
    · cases h
  · cases h

/-- Calls are noted, whatever condition they satisfy, if the calls of the reporter do. -/
theorem isNoted_perform_of (op : Operation ω)
    (silent : ∀ call : ServiceCall, call.report? = none → Due call)
    (reported : ∀ task, op.finishing c = some task → Noted Due (reportTask e task)
      (reportTask e.noting task) (c.setTopic .reporter (c.finishes.receive 0).2)) :
    (op.perform e c).IsNoted Due fun notes =>
      (op.noting notes).perform e.noting (c.noting notes) := by
  cases op with
  | register task contract => exact (noted_registerTask task contract).isNoted
  | start task now => exact (noted_startTask task now).isNoted
  | check now => exact (noted_checkTasks now).isNoted
  | deliver l =>
    refine isNoted_deliver fun task received => ?_
    cases l with
    | deployer => exact noted_deployTask silent task
    | fuzzer => exact noted_submitInputs silent task
    | reporter => exact reported task (finishing_deliver received)
  | recordExecution hash executed => exact (noted_recordExecution hash executed).isNoted
  | recordWeaknesses hash snapshot => exact (noted_recordWeaknesses hash snapshot).isNoted
  | outside world => exact Campaign.isNoted_noting _ { c with world }

variable (e c)

theorem isNoted_perform (op : Operation ω) :
    (op.perform e c).IsNoted (ServiceCall.IsDue c.store) fun notes =>
      (op.noting notes).perform e.noting (c.noting notes) :=
  op.isNoted_perform_of (fun _ => ServiceCall.isDue_of_report?_eq_none) fun task _ =>
    noted_reportTask (c := c.setTopic .reporter (c.finishes.receive 0).2) task

/-- In a world with notes an operation does what it does without, and its calls are noted. -/
theorem perform_noting (op : Operation ω) (notes : List ServiceCall) :
    (op.noting notes).perform e.noting (c.noting notes) =
      (op.perform e c).noting (notes ++ op.serviceCalls e c) := by
  obtain ⟨new, -, hnoting⟩ := op.isNoted_perform e c
  have hcalls : op.serviceCalls e c = new := congrArg (·.world.2) (hnoting [])
  rw [hcalls]
  exact hnoting notes

/-- Every report that is delivered is the summary of a stored task. -/
theorem isDue_of_mem_serviceCalls {op : Operation ω} {call : ServiceCall}
    (h : call ∈ op.serviceCalls e c) : call.IsDue c.store := by
  obtain ⟨new, due, hnoting⟩ := op.isNoted_perform e c
  have hcalls : op.serviceCalls e c = new := congrArg (·.world.2) (hnoting [])
  exact due call (hcalls ▸ h)

end Operation

/-! ### The reports of an operation -/

/-- The summary of a stored task, with its contract and its transactions. -/
def Store.report (id : TaskId) (s : Store) : Except Failure TaskReport := do
  let task ← s.getTask id
  let contract ← s.contractOfTask task.id
  return .build task contract (s.transactionsOf task.id)

/-- The reporter delivers the summary of the task, unless the task or its contract are missing. -/
theorem perform_reportTask (id : TaskId) : (reportTask e id).perform c =
    match c.store.report id with
      | .ok report => (external .reportSink (e.services.deliver report)).perform c
      | .error failure => (.error failure, c) := by
  unfold reportTask Store.report
  cases htask : c.store.getTask id with
  | error failure => exact perform_query_bind_of_error htask
  | ok task =>
    rw [perform_query_bind_of_ok htask]
    dsimp only [Bind.bind, Except.bind]
    cases hcontract : c.store.contractOfTask task.id with
    | error failure => exact perform_query_bind_of_error hcontract
    | ok contract => exact (perform_query_bind_of_ok hcontract).trans perform_view_bind

/-- What an event on the reporter's topic adds to the notes. -/
theorem serviceCalls_deliver_of_event {task : TaskId}
    (received : (c.finishes.receive 0).1 = .event task) :
    (Operation.deliver .reporter).serviceCalls e c =
      ((c.store.report task).toOption.map ServiceCall.deliver).toList := by
  have received' : (((c.noting []).topic .reporter).receive 0).1 = .event task := received
  have world := congrArg Prod.snd (world_deliver_of_event (e := e.noting) received')
  refine world.trans ?_
  change ((reportTask e.noting task).perform _).2.world.2 = _
  rw [perform_reportTask]
  have store : ((c.noting []).setTopic .reporter
      (((c.noting []).topic .reporter).receive 0).2).store.report task = c.store.report task := rfl
  rw [store]
  cases c.store.report task <;> rfl

/-- The reporter is the only one to deliver reports: the summary of the task that it is told of,
unless that one or its contract are missing. -/
theorem Operation.reports_eq (op : Operation ω) : op.reports e c =
    ((op.finishing c).bind fun task => (c.store.report task).toOption).toList := by
  cases hfinishing : op.finishing c with
  | none =>
    have hnoted : (op.perform e c).IsNoted (fun call => call.report? = none) _ :=
      op.isNoted_perform_of (fun _ h => h) fun task h => by rw [hfinishing] at h; cases h
    obtain ⟨new, silent, hnoting⟩ := hnoted
    have hcalls : op.serviceCalls e c = new := congrArg (·.world.2) (hnoting [])
    rw [Operation.reports, hcalls]
    exact List.filterMap_eq_nil_iff.mpr silent
  | some task =>
    obtain ⟨rfl, received⟩ := received_of_finishing hfinishing
    rw [reports, serviceCalls_deliver_of_event received, Option.bind_some]
    cases c.store.report task <;> rfl

end ContractFuzz
