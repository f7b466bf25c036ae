import ContractFuzz.Proofs.Campaign.Checking
import ContractFuzz.Proofs.Campaign.Deployment
import ContractFuzz.Proofs.Campaign.Submission
import ContractFuzz.Proofs.Seed.Recorded
import ContractFuzz.Simulation.World
/-!
# Runs of campaigns

The states that campaigns come to when operations are performed on them, one after the other, in any
order. Whatever their ledgers satisfy at first and keep with every move, they satisfy in all of
these states.

## Main definitions

* `Operation`, `Operation.perform` : what can be done to campaigns from outside.
* `Operation.Admissible` : new tasks and contracts are registered under new ids.
* `Campaign.Reachable` : the states that operations lead to.
* `switchCampaign` : a short campaign in the simulated world.

## Main results

* `Operation.moves_perform` : every operation is made of moves.
* `Campaign.Reachable.invariant` : what every move keeps holds in every reachable state.
-/

namespace ContractFuzz

open Activity

variable {ω : Type}

/-- What can be done to campaigns from outside. -/
inductive Operation (ω : Type) where
  /-- A task and its contract are registered. -/
  | register (task : Task) (contract : Contract)
  /-- A task is started. -/
  | start (task : TaskId) (now : Instant)
  /-- All running tasks are looked at. -/
  | check (now : Instant)
  /-- A listener gets its next event. -/
  | deliver (l : Listener)
  /-- The node reports the execution of a transaction. -/
  | recordExecution (hash : String) (executed : PcSet)
  /-- The node reports events during a transaction. -/
  | recordWeaknesses (hash : String) (snapshot : Snapshot)
  /-- The world outside changes: time passes, or a service will answer otherwise. -/
  | outside (world : ω)

namespace Operation

/-- The state after an operation. -/
def perform (e : Engine ω) : Operation ω → Campaign ω → Campaign ω
  | register task contract, c => ((registerTask task contract).perform c).2
  | start task now, c => ((startTask task now).perform c).2
  | check now, c => ((checkTasks e now).perform c).2
  | deliver l, c => ((ContractFuzz.deliver e l).run c).2
  | recordExecution hash executed, c =>
    ((ContractFuzz.recordExecution e hash executed).perform c).2
  | recordWeaknesses hash snapshot, c =>
    ((ContractFuzz.recordWeaknesses e hash snapshot).perform c).2
  | outside world, c => { c with world }

/-- Registered tasks and contracts have new ids, and are among the accepted ones. All other
operations are allowed at any time. -/
def Admissible (Accepted : Task → Contract → Prop) (c : Campaign ω) : Operation ω → Prop
  | register task contract => c.ledger.Registrable task contract ∧ Accepted task contract
  | _ => True

/-- The state after several operations, one after the other. -/
def performAll (e : Engine ω) (ops : List (Operation ω)) (c : Campaign ω) : Campaign ω :=
  ops.foldl (fun c op => op.perform e c) c

end Operation

/-- The states that operations lead to, from any random sources and any state of the world. -/
inductive Campaign.Reachable (e : Engine ω) (Accepted : Task → Contract → Prop) :
    Campaign ω → Prop
  | start (world : ω) (deployer fuzzer : Source) :
      Reachable e Accepted { Campaign.start 0 world with
        deployerSource := deployer
        fuzzerSource := fuzzer }
  | step {c : Campaign ω} (reached : Reachable e Accepted c) (op : Operation ω)
      (admissible : op.Admissible Accepted c) : Reachable e Accepted (op.perform e c)

variable {e : Engine ω} {Accepted : Task → Contract → Prop} {c : Campaign ω}

/-! ### Delivery -/

/-- Reporting changes no records and publishes nothing. -/
theorem ledger_reportTask (id : TaskId) : ((reportTask e id).perform c).2.ledger = c.ledger := by
  unfold reportTask
  cases htask : c.store.getTask id with
  | error failure => rw [perform_query_bind_of_error htask]
  | ok task =>
    rw [perform_query_bind_of_ok htask]
    cases hcontract : c.store.contractOfTask task.id with
    | error failure => rw [perform_query_bind_of_error hcontract]
    | ok contract => rw [perform_query_bind_of_ok hcontract, perform_view_bind]; rfl

theorem moves_handle (h : c.ledger.Sound) {l : Listener} {task : TaskId}
    (published : task ∈ (c.topic l).published) :
    Ledger.Moves e.config Accepted c.ledger ((handle e l task).perform c).2.ledger := by
  cases l with
  | deployer => exact moves_deployTask h published
  | fuzzer => exact moves_submitInputs h published
  | reporter => exact ledger_reportTask (e := e) task ▸ .refl

/-- A delivered event is handled; a failure is only noted in the log. -/
theorem run_deliver_of_event {l : Listener} {task : TaskId} {r : Except Failure Unit}
    {c' : Campaign ω} (received : ((c.topic l).receive 0).1 = .event task)
    (handled : (handle e l task).perform (c.setTopic l ((c.topic l).receive 0).2) = (r, c')) :
    ((deliver e l).run c).2 = match r with
      | .ok _ => c'
      | .error failure => { c' with log := c'.log ++ [.eventDropped l failure] } := by
  unfold deliver
  rw [Steps.run_bind, Steps.run_atomically]
  dsimp only
  rw [received]
  dsimp only
  rw [Steps.run_bind]
  rw [Activity.perform] at handled
  rw [handled]
  cases r <;> rfl

/-- Without an event, nothing happens but that the topic was looked at. -/
theorem run_deliver_of_none {l : Listener}
    (none : ∀ task, ((c.topic l).receive 0).1 ≠ .event task) :
    ((deliver e l).run c).2 = c.setTopic l ((c.topic l).receive 0).2 := by
  unfold deliver
  rw [Steps.run_bind, Steps.run_atomically]
  dsimp only
  split
  · next task received => exact absurd received (none task)
  · rfl

theorem ledger_deliver_of_event {l : Listener} {task : TaskId}
    (received : ((c.topic l).receive 0).1 = .event task) :
    ((deliver e l).run c).2.ledger =
      ((handle e l task).perform (c.setTopic l ((c.topic l).receive 0).2)).2.ledger := by
  rcases handled : (handle e l task).perform (c.setTopic l ((c.topic l).receive 0).2) with ⟨r, c'⟩
  rw [run_deliver_of_event received handled]
  cases r <;> rfl

theorem world_deliver_of_event {l : Listener} {task : TaskId}
    (received : ((c.topic l).receive 0).1 = .event task) :
    ((deliver e l).run c).2.world =
      ((handle e l task).perform (c.setTopic l ((c.topic l).receive 0).2)).2.world := by
  rcases handled : (handle e l task).perform (c.setTopic l ((c.topic l).receive 0).2) with ⟨r, c'⟩
  rw [run_deliver_of_event received handled]
  cases r <;> rfl

/-- The ledger after a delivery is the one after the handling of the event that was received. -/
theorem ledger_deliver (l : Listener) :
    (∃ task ∈ (c.topic l).published, ((deliver e l).run c).2.ledger =
      ((handle e l task).perform (c.setTopic l ((c.topic l).receive 0).2)).2.ledger) ∨
    ((deliver e l).run c).2.ledger = c.ledger := by
  by_cases received : ∃ task, ((c.topic l).receive 0).1 = .event task
  · obtain ⟨task, received⟩ := received
    exact .inl ⟨task, Topic.mem_published_of_receive received, ledger_deliver_of_event received⟩
  · refine .inr ?_
    rw [run_deliver_of_none (not_exists.mp received)]
    exact c.ledger_setTopic_receive l 0

theorem moves_deliver (h : c.ledger.Sound) (l : Listener) :
    Ledger.Moves e.config Accepted c.ledger ((deliver e l).run c).2.ledger := by
  rcases ledger_deliver (e := e) (c := c) l with ⟨task, published, heq⟩ | heq
  · have hsame := c.ledger_setTopic_receive l 0
    have hpublished : task ∈ ((c.setTopic l ((c.topic l).receive 0).2).topic l).published := by
      rw [Campaign.published_setTopic, if_pos rfl, Topic.published_receive]
      exact published
    rw [heq, ← hsame]
    exact moves_handle (hsame ▸ h) hpublished
  · exact heq ▸ .refl

/-! ### Operations -/

/-- Every operation that is allowed is made of moves. -/
theorem Operation.moves_perform (h : c.ledger.Sound) (op : Operation ω)
    (admissible : op.Admissible Accepted c) :
    Ledger.Moves e.config Accepted c.ledger (op.perform e c).ledger := by
  cases op with
  | register task contract => exact moves_registerTask admissible.1 admissible.2
  | start task now => exact moves_startTask h task now
  | check now => exact moves_checkTasks h now
  | deliver l => exact moves_deliver h l
  | recordExecution hash executed => exact moves_recordExecution h hash executed
  | recordWeaknesses hash snapshot => exact moves_recordWeaknesses h hash snapshot
  | outside world => exact .refl

namespace Campaign.Reachable

theorem moves (h : Reachable e Accepted c) :
    Ledger.Moves e.config Accepted .empty c.ledger := by
  induction h with
  | start world deployer fuzzer =>
    have hempty : Campaign.ledger { Campaign.start 0 world with
        deployerSource := deployer
        fuzzerSource := fuzzer } = .empty :=
      Ledger.ext rfl (funext fun l => by cases l <;> rfl) rfl rfl
    exact hempty ▸ .refl
  | step reached op admissible ih =>
    exact ih.trans (op.moves_perform (ih.sound Ledger.sound_empty) admissible)

theorem sound (h : Reachable e Accepted c) : c.ledger.Sound :=
  h.moves.sound Ledger.sound_empty

/-- What is true at first, and kept by every move of a sound ledger, is true in every reachable
state. -/
theorem invariant (h : Reachable e Accepted c) {J : Ledger → Prop} (start : J .empty)
    (move : ∀ {g g'}, g.Sound → J g → Ledger.Move e.config Accepted g g' → J g') : J c.ledger := by
  have hboth : ∀ {g}, Ledger.Moves e.config Accepted .empty g → g.Sound ∧ J g := by
    intro g hmoves
    induction hmoves with
    | refl => exact ⟨Ledger.sound_empty, start⟩
    | tail _ hmove ih => exact ⟨hmove.sound ih.1, move ih.1 ih.2 hmove⟩
  exact (hboth h.moves).2

/-- Operations that are always allowed lead from reachable states to reachable states. -/
theorem performAll (h : Reachable e Accepted c) {ops : List (Operation ω)}
    (admissible : ∀ op ∈ ops, ∀ c, op.Admissible Accepted c) :
    Reachable e Accepted (Operation.performAll e ops c) := by
  induction ops generalizing c with
  | nil => exact h
  | cons op ops ih =>
    exact ih (h.step op (admissible op List.mem_cons_self c)) fun op' hop =>
      admissible op' (List.mem_cons_of_mem _ hop)

end Campaign.Reachable

/-! ### A short campaign -/

/-- The simulated world, with two inputs in a batch and one kind of critical instruction. -/
def switchEngine : Engine World where
  config := { Config.default with
    fuzzing := { switchConfig with
      batchSize := 2
      critical := ["CALL"] } }
  services := World.services

/-- The same engine with a clock that shows a second more at each look. -/
def tickingEngine : Engine World :=
  { switchEngine with
    services := { World.services with clock := fun w look => w.now.deadline (.ofSeconds look) } }

/-- A task of one minute. -/
def switchTask : Task :=
  ⟨⟨0⟩, .blackbox, [], .created, .ofSeconds 60, none, none, .empty⟩

/-- A contract whose one function takes a truth value. -/
def switchContract : Contract :=
  .new ⟨0⟩ ⟨0⟩ "Switch" "[[\"function\",\"set\",[[\"on\",\"bool\"]]]]"

/-- The world in which the contract has two blocks, and the second one makes a call. -/
def switchWorld : World :=
  { World.initial with
    blocks := .ok [⟨"0", [⟨"0", "JUMPI"⟩], ["10"]⟩, ⟨"10", [⟨"10", "CALL"⟩], []⟩] }

/-- The contract is deployed and a batch is submitted. Then the node reports the executions, that of
the second input first and twice, and the deployment as well. -/
def switchOperations : List (Operation World) :=
  [.start ⟨0⟩ .epoch, .deliver .deployer, .deliver .fuzzer, .recordExecution "h2" (.ofList [0]),
    .recordExecution "h2" (.ofList [10]), .recordExecution "h1" (.ofList [0, 10]),
    .recordExecution "h0" (.ofList [20])]

/-- The state at the end. -/
def switchCampaign : Campaign World :=
  Operation.performAll switchEngine switchOperations
    ((Operation.register switchTask switchContract).perform switchEngine
      (Campaign.start 0 switchWorld))

theorem reachable_switchCampaign {Accepted : Task → Contract → Prop}
    (accepted : Accepted switchTask switchContract) :
    Campaign.Reachable switchEngine Accepted switchCampaign := by
  have hstart : Campaign.Reachable switchEngine Accepted (Campaign.start 0 switchWorld) :=
    .start switchWorld (.ofSeed 0) (.ofSeed 0)
  have hregistered := hstart.step (.register switchTask switchContract)
    ⟨⟨rfl, rfl, rfl, rfl⟩, accepted⟩
  refine hregistered.performAll fun op hop c => ?_
  simp only [switchOperations, List.mem_cons, List.not_mem_nil, or_false] at hop
  rcases hop with rfl | rfl | rfl | rfl | rfl | rfl | rfl <;> exact trivial

end ContractFuzz
