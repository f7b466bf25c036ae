import ContractFuzz.Proofs.Interleaving.Recorder
import ContractFuzz.Proofs.Interleaving.Submitter
/-!
# No update is lost

Callbacks from the node, the giving up of transactions, the periodic look at tasks and the
submission of batches go on side by side, and the steps that they are made of come in any order.
Tasks and transactions that are done stay so, nothing that was executed or found is lost, and once
all have ended the aggregates are what was executed.

## Main definitions

* `Worker.Begins` : the activities of each worker.

## Main results

* `Campaign.Reachable.run_keeps_updates` : no update is lost.
-/

namespace ContractFuzz

open Discipline

variable {ω : Type} {e : Engine ω} {c : Campaign ω}

/-- An activity whose result nobody waits for. -/
def Activity.alone {α : Type} (p : Activity ω α) : Steps (Campaign ω) Unit :=
  (ExceptT.run p).bind fun _ => .done ()

/-- What workers begin: any number of callbacks and of attempts to give up transactions, one look at
all tasks at a time, and one submission at a time. -/
inductive Worker.Begins (e : Engine ω) : Worker → Steps (Campaign ω) Unit → Prop
  | recordExecution (n : Nat) (hash : String) (executed : PcSet) :
      Begins e (.recorder n) (recordExecution e hash executed).alone
  | recordWeaknesses (n : Nat) (hash : String) (snapshot : Snapshot) :
      Begins e (.recorder n) (recordWeaknesses e hash snapshot).alone
  | expireStale (n : Nat) (task : TaskId) (cutoff : Instant) :
      Begins e (.recorder n) (expireStale task cutoff).alone
  | checkTasks (now : Instant) : Begins e .checker (checkTasks e now).alone
  | submitInputs (id : TaskId) : Begins e .submitter (submitInputs e id).alone
  | submitBatch (contract : Contract) (task : TaskId) (function : ContractFunction)
      (clock : Nat → Instant) (generated : List (Seed × List Value)) :
      Begins e .submitter (submitBatch e contract task function clock generated).alone
  | outside (world : ω) : Begins e .outside (.modify fun c => { c with world })

/-- What is safe is safe if nobody waits for its result. -/
private theorem safe_alone {α : Type} {i : Worker} {p : Activity ω α}
    (h : p.Safe i Unheld false c) : (conduct ω).Safe i Unheld p.alone false c :=
  Discipline.Safe.bind (Discipline.Safe.mono h fun _ _ _ hheld _ _ _ => hheld)

/-- Whatever workers begin is safe. -/
theorem Worker.Begins.safe {i : Worker} {program : Steps (Campaign ω) Unit}
    (h : Begins e i program) (c : Campaign ω) : (conduct ω).Safe i Unheld program false c := by
  cases h with
  | recordExecution n hash executed => exact safe_alone (safe_recordExecution hash executed)
  | recordWeaknesses n hash snapshot => exact safe_alone (safe_recordWeaknesses hash snapshot)
  | expireStale n task cutoff => exact safe_alone (safe_expireStale task cutoff)
  | checkTasks now => exact safe_alone (safe_checkTasks now)
  | submitInputs id => exact safe_alone (safe_submitInputs id)
  | submitBatch contract task function clock generated =>
    exact safe_alone (safe_submitBatch contract task function clock generated)
  | outside world =>
    intro c' _ orderly
    have does : Campaign.Does .outside false c' { c' with world } := Campaign.does_of_eq rfl rfl
    exact ⟨does, orderly.of_eq rfl rfl, fun _ _ _ => rfl⟩

namespace Campaign

/-- Reachable states are in order. -/
theorem Reachable.orderly (h : Reachable e (fun _ _ => True) c) : c.Orderly where
  distinct := h.sound.distinct
  numbered := h.sound.numbered
  regular := Ledger.Changes.regular (fun _ hmem => absurd hmem List.not_mem_nil)
    (Ledger.Moves.changes h.moves)

/-- The aggregates of reachable states are settled. -/
theorem Reachable.settled (h : Reachable e (fun _ _ => True) c) : c.Settled := by
  intro id all hall
  obtain ⟨t, ht, rfl⟩ := Store.aggregate?_eq_some_iff.mp hall
  exact SortedSet.ext_mem fun pc => (h.aggregated.aggregate ht pc).trans Store.mem_executedFor.symm

/-- No update is lost, whatever the workers do side by side from a reachable state on. Between any
two moments, tasks that are done stay so and aggregates only grow, and transactions that are done
stay so with all that they executed and all weaknesses found. As soon as all activities have ended,
every aggregate is what the transactions of the task executed. -/
theorem Reachable.run_keeps_updates (h : Reachable e (fun _ _ => True) c)
    {p q : Pool Worker (Campaign ω)} (before : Pool.Run (Worker.Begins e) (.idle c) p)
    (between : Pool.Run (Worker.Begins e) p q) :
    (∀ id t, p.state.store.getTask id = .ok t → ∃ t', q.state.store.getTask id = .ok t' ∧
      (t.status = .done → t'.status = .done) ∧ ∀ pc ∈ t.executed, pc ∈ t'.executed) ∧
    (q.state.store.transactions.map (·.id)).Nodup ∧
    (∀ tx ∈ p.state.store.transactions, tx.status = .done →
      ∃ tx' ∈ q.state.store.transactions, tx'.id = tx.id ∧ tx'.status = .done ∧
        tx'.executed = tx.executed ∧ ∀ w ∈ tx.weaknesses, w ∈ tx'.weaknesses) ∧
    ((∀ i, (q.rest i).ended = true) → ∀ id t, q.state.store.getTask id = .ok t →
      t.executed = q.state.store.executedFor id) := by
  have begins : ∀ i program, Worker.Begins e i program → ∀ s,
      (conduct ω).Safe i Unheld program false s := fun _ _ hbegins s => hbegins.safe s
  have idle : (conduct ω).Keeps (.idle c) := .idle h.orderly h.settled
  obtain ⟨hp, -⟩ := idle.run begins before
  obtain ⟨hq, does⟩ := hp.run begins between
  have progress : p.state.store.Progress q.state.store := .of_steps does
  refine ⟨fun id t ht => ?_, hq.always.distinct, fun tx htx hdone => ?_, fun ended id t ht => ?_⟩
  · obtain ⟨t', ht', grows⟩ := progress.tasks id t (Store.getTask_eq_ok_iff.mp ht)
    exact ⟨t', Store.getTask_eq_ok_iff.mpr ht', grows.done, grows.executed⟩
  · obtain ⟨tx', htx', becomes⟩ := progress.transactions.exists_mem htx
    exact ⟨tx', htx', becomes.id, becomes.done hdone, (becomes.settled hdone).1, becomes.weaknesses⟩
  · have settled : q.state.Settled := hq.free_of_ended ended
    exact settled id t.executed
      (Store.aggregate?_eq_some_iff.mpr ⟨t, Store.getTask_eq_ok_iff.mp ht, rfl⟩)

/-- In the short campaign, the node reports an execution, a further batch is submitted and the time
of the task is over. -/
def switchPool : Pool Worker (Campaign World) :=
  (((Pool.idle switchSubmitted).begun .submitter (submitInputs switchEngine ⟨0⟩).alone).begun
    (.recorder 0) (recordExecution switchEngine "h2" (.ofList [0])).alone).begun
    .checker (checkTasks switchEngine (.ofMillis 60000)).alone

/-- The batch is stored; the execution is about to be recorded when the task is finished; the node
answers about the batch at the end. -/
def switchTurns : List Worker :=
  List.replicate 8 .submitter ++ List.replicate 4 (.recorder 0) ++ List.replicate 4 .checker ++
    List.replicate 10 (.recorder 0) ++ List.replicate 3 .submitter

theorem run_keeps_updates_switchPool :
    (∀ i, ((switchPool.turns switchTurns).rest i).ended = true) ∧
    (switchPool.turns switchTurns).state.store.transactions.map
      (fun tx => (tx.status, tx.hash, tx.executed.toList)) =
        [(.done, some "h0", []), (.running, some "h1", []), (.done, some "h2", [0]),
          (.running, some "h3", []), (.running, some "h4", [])] ∧
    ∃ t, (switchPool.turns switchTurns).state.store.getTask ⟨0⟩ = .ok t ∧ t.status = .done ∧
      t.executed.toList = [0] ∧
      t.executed = (switchPool.turns switchTurns).state.store.executedFor ⟨0⟩ := by
  have reached : Reachable switchEngine (fun _ _ => True) switchSubmitted := by
    have registered : Reachable switchEngine (fun _ _ => True) _ :=
      (Reachable.start switchWorld (.ofSeed 0) (.ofSeed 0)).step
        (.register switchTask switchContract) ⟨⟨rfl, rfl, rfl, rfl⟩, trivial⟩
    refine registered.performAll fun op hop c => ?_
    simp only [switchOperations, List.take, List.mem_cons, List.not_mem_nil, or_false] at hop
    rcases hop with rfl | rfl | rfl <;> exact trivial
  have begun : Pool.Run (Worker.Begins switchEngine) (.idle switchSubmitted) switchPool :=
    ((Pool.run_begun rfl (.submitInputs _)).trans
      (Pool.run_begun rfl (.recordExecution 0 _ _))).trans (Pool.run_begun rfl (.checkTasks _))
  -- Everything is computed in one run, since that takes a while.
  have computed : (∀ i ∈ [Worker.submitter, .recorder 0, .checker],
      ((switchPool.turns switchTurns).rest i).ended = true) ∧
    (switchPool.turns switchTurns).state.store.transactions.map
      (fun tx => (tx.status, tx.hash, tx.executed.toList)) =
        [(.done, some "h0", []), (.running, some "h1", []), (.done, some "h2", [0]),
          (.running, some "h3", []), (.running, some "h4", [])] ∧
    ((switchPool.turns switchTurns).state.store.getTask ⟨0⟩).toOption.map
      (fun t => (t.status, t.executed.toList)) = some (.done, [0]) := by decide +kernel
  obtain ⟨worked, htransactions, htask⟩ := computed
  have ended : ∀ i, ((switchPool.turns switchTurns).rest i).ended = true := by
    intro i
    by_cases hi : i ∈ switchTurns
    · refine worked i ?_
      simp only [switchTurns, List.mem_append, List.mem_replicate] at hi
      rcases hi with (((⟨-, rfl⟩ | ⟨-, rfl⟩) | ⟨-, rfl⟩) | ⟨-, rfl⟩) | ⟨-, rfl⟩ <;> simp
    · rw [Pool.rest_turns hi, switchPool, Pool.rest_begun_of_ne, Pool.rest_begun_of_ne,
        Pool.rest_begun_of_ne] <;> first | rfl | rintro rfl; exact hi (by decide)
  obtain ⟨-, -, -, settled⟩ := reached.run_keeps_updates begun (Pool.run_turns switchTurns)
  obtain ⟨t, ht, hboth⟩ := exists_of_toOption htask
  obtain ⟨hstatus, hexecuted⟩ := Prod.mk.inj hboth
  exact ⟨ended, htransactions, t, ht, hstatus, hexecuted, settled ended ⟨0⟩ t ht⟩

end Campaign

end ContractFuzz
