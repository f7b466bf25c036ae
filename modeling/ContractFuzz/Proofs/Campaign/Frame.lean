import ContractFuzz.Proofs.Campaign.Filing
import ContractFuzz.Proofs.Store.Index
/-!
# What activities leave as it is

Most activities change little, and leave the rest as it is, whether they succeed or fail. This is
shown step by step, for any part of the state. Only registrations and deployments change contracts;
only deployments and submissions add transactions; and only a delivery moves a listener on.

## Main definitions

* `Activity.Leaves` : a part of the state stays as it is.
* `Store.outline` : the contracts, and which transactions there are.
* `Campaign.outline` : with them, how far the listeners have come.

## Main results

* `Activity.Leaves.bind`, `Activity.Leaves.commit` and others : one rule for each kind of step.
* `leaves_startTask`, `leaves_checkTasks` and others : activities that leave the outline.
-/

namespace ContractFuzz

open Activity

variable {ω α β γ : Type}

/-- An activity that leaves a part of the state as it is, whether it succeeds or fails. -/
def Activity.Leaves (part : Campaign ω → γ) (p : Activity ω α) : Prop :=
  ∀ c : Campaign ω, part (p.perform c).2 = part c

namespace Activity.Leaves

variable {part : Campaign ω → γ} {p q : Activity ω α}

theorem pure (a : α) : Leaves part (Pure.pure a : Activity ω α) := fun _ => rfl

theorem ofExcept (r : Except Failure α) : Leaves part (Activity.ofExcept r) := fun _ => rfl

theorem query (f : Store → Except Failure α) : Leaves part (Activity.query f) := fun _ => rfl

theorem view (f : Store → α) : Leaves part (Activity.view f) := fun _ => rfl

theorem bind {k : α → Activity ω β} (first : p.Leaves part) (next : ∀ a, (k a).Leaves part) :
    (p >>= k).Leaves part := by
  intro c
  have hfirst := first c
  rcases hp : p.perform c with ⟨r, c'⟩
  rw [hp] at hfirst
  cases r with
  | ok a => exact perform_bind_of_ok hp ▸ (next a c').trans hfirst
  | error failure => exact perform_bind_of_error hp ▸ hfirst

/-- A change of the records that leaves the part. -/
theorem commit {f : Store → Except Failure (α × Store)}
    (h : ∀ {c : Campaign ω} {a s}, f c.store = .ok (a, s) → part { c with store := s } = part c) :
    Leaves part (Activity.commit f) := by
  intro c
  rw [perform_commit]
  cases hf : f c.store with
  | ok result => exact h hf
  | error failure => rfl

theorem update {f : Store → Except Failure Store}
    (h : ∀ {c : Campaign ω} {s}, f c.store = .ok s → part { c with store := s } = part c) :
    Leaves part (Activity.update f) := by
  intro c
  rw [perform_update]
  cases hf : f c.store with
  | ok s => exact h hf
  | error failure => rfl

theorem exclusively (h : p.Leaves part) : (Activity.exclusively p).Leaves part :=
  fun c => (perform_exclusively c p).symm ▸ h c

theorem ite {b : Prop} [Decidable b] (hp : p.Leaves part) (hq : q.Leaves part) :
    Leaves part (if b then p else q) := by
  split
  · exact hp
  · exact hq

end Activity.Leaves

/-! ### The outline of the records -/

namespace Store

/-- The contracts, and the ids of all transactions. -/
def outline (s : Store) : SortedMap ContractId Contract × List TransactionId :=
  (s.contracts, s.transactions.map (·.id))

variable {s s' : Store}

theorem outline_updateTask {t : Task} (h : s.updateTask t = .ok s') : s'.outline = s.outline :=
  eq_of_updateTask h ▸ rfl

theorem outline_updateTaskStatus {id : TaskId} {status : TaskStatus} {t : Task}
    (h : s.updateTaskStatus id status = .ok (t, s')) : s'.outline = s.outline := by
  obtain ⟨-, -, -, rfl⟩ := eq_of_updateTaskStatus h
  rfl

theorem outline_mergeExecuted {id : TaskId} {executed : PcSet} {t : Task}
    (h : s.mergeExecuted id executed = .ok (t, s')) : s'.outline = s.outline := by
  obtain ⟨-, -, -, rfl⟩ := eq_of_mergeExecuted h
  rfl

theorem outline_updateTransaction {tx : Transaction} (h : s.updateTransaction tx = .ok s') :
    s'.outline = s.outline :=
  eq_of_updateTransaction h ▸ Prod.ext rfl (map_id_replaceLast tx s.transactions)

theorem outline_updateTransactions {txs : List Transaction}
    (h : s.updateTransactions txs = .ok s') : s'.outline = s.outline := by
  refine eq_of_updateTransactions h ▸ Prod.ext rfl ?_
  dsimp only [outline]
  clear h
  generalize s.transactions = rows
  induction txs generalizing rows with
  | nil => rfl
  | cons tx txs ih => exact (ih (replaceLast tx rows)).trans (map_id_replaceLast tx rows)

end Store

namespace Campaign

/-- How far every listener has come on its topic. -/
def readers (c : Campaign ω) (l : Listener) : List Subscriber := (c.topic l).subscribers

/-- The outline of the records, and how far every listener has come. -/
def outline (c : Campaign ω) :
    (SortedMap ContractId Contract × List TransactionId) × (Listener → List Subscriber) :=
  (c.store.outline, c.readers)

theorem readers_publish (c : Campaign ω) (l : Listener) (task : TaskId) :
    (c.publish l task).readers = c.readers :=
  funext fun k => by cases l <;> cases k <;> rfl

theorem outline_publish (c : Campaign ω) (l : Listener) (task : TaskId) :
    (c.publish l task).outline = c.outline :=
  Prod.ext (by cases l <;> rfl) (c.readers_publish l task)

theorem outline_withStore {c : Campaign ω} {s : Store} (h : s.outline = c.store.outline) :
    outline { c with store := s } = c.outline :=
  Prod.ext h rfl

theorem contracts_eq_of_outline {c c' : Campaign ω} (h : c'.outline = c.outline) :
    c'.store.contracts = c.store.contracts :=
  congrArg (·.1.1) h

theorem ids_eq_of_outline {c c' : Campaign ω} (h : c'.outline = c.outline) :
    c'.store.transactions.map (·.id) = c.store.transactions.map (·.id) :=
  congrArg (·.1.2) h

theorem readers_eq_of_outline {c c' : Campaign ω} (h : c'.outline = c.outline) :
    c'.readers = c.readers :=
  congrArg Prod.snd h

end Campaign

/-! ### Activities -/

open Campaign (outline_withStore outline_publish)

theorem leaves_startTask (id : TaskId) (now : Instant) :
    (startTask id now).Leaves (Campaign.outline (ω := ω)) := by
  refine .bind (.query _) fun task => .ite ?_ fun _ => rfl
  exact .bind (.update fun h => outline_withStore (Store.outline_updateTask h)) fun _ =>
    .bind (fun c => outline_publish c _ _) fun _ => .pure _

theorem leaves_expireStale (task : TaskId) (cutoff : Instant) :
    (expireStale task cutoff).Leaves (Campaign.outline (ω := ω)) := by
  refine .exclusively (.bind (.view _) fun txs => .ite (.pure _) ?_)
  exact .bind (.update fun h => outline_withStore (Store.outline_updateTransactions h)) fun _ =>
    .pure _

variable {e : Engine ω}

theorem leaves_checkTask (now : Instant) (task : Task) :
    (checkTask e now task).Leaves Campaign.outline := by
  refine .ite ?_ ?_
  · exact .bind (.commit fun h => outline_withStore (Store.outline_updateTaskStatus h)) fun _ =>
      .bind (fun c => outline_publish c _ _) fun _ => .pure _
  refine .bind (.query _) fun contract => .ite (.pure _) ?_
  refine .bind (leaves_expireStale _ _) fun timedOut => .bind (.view _) fun pending => ?_
  exact .ite (.pure _) (.bind (fun c => outline_publish c _ _) fun _ => .pure _)

theorem leaves_checkTasks (now : Instant) : (checkTasks e now).Leaves Campaign.outline := by
  have each : ∀ tasks, (checkEach e now tasks).Leaves Campaign.outline := by
    intro tasks
    induction tasks with
    | nil => exact .pure _
    | cons task rest ih =>
      exact .bind (leaves_checkTask now task) fun _ => .bind ih fun _ => .pure _
  exact .bind (.view _) each

theorem leaves_recordExecution (hash : String) (executed : PcSet) :
    (recordExecution e hash executed).Leaves Campaign.outline := by
  refine .exclusively (.bind (.query _) fun tx => .ite (.pure _) ?_)
  refine .bind (.query _) fun before => .bind (.query _) fun contract => ?_
  refine .bind (.update fun h => outline_withStore (Store.outline_updateTransaction h)) fun _ =>
    .bind (.commit fun h => outline_withStore (Store.outline_mergeExecuted h)) fun task => ?_
  refine .ite (.bind (.view _) fun pending => .ite ?_ (.pure _)) (.pure _)
  exact .bind (fun c => outline_publish c _ _) fun _ => .pure _

theorem leaves_recordWeaknesses (hash : String) (snapshot : Snapshot) :
    (recordWeaknesses e hash snapshot).Leaves Campaign.outline := by
  refine .exclusively (.bind (.query _) fun tx => .ite ?_ (.pure _))
  exact .bind (.update fun h => outline_withStore (Store.outline_updateTransaction h)) fun _ =>
    .pure _

theorem leaves_reportTask (id : TaskId) : (reportTask e id).Leaves Campaign.outline :=
  .bind (.query _) fun _ => .bind (.query _) fun _ => .bind (.view _) fun _ => fun _ => rfl

theorem leaves_submitBatch (contract : Contract) (task : TaskId) (function : ContractFunction)
    (clock : Nat → Instant) (generated : List (Seed × List Value)) :
    (submitBatch e contract task function clock generated).Leaves
      fun c => (c.store.contracts, c.readers) := by
  refine .bind (fun _ => rfl) fun first => .bind (fun _ => rfl) fun _ => ?_
  refine .bind (fun _ => rfl) fun outcome => .bind (fun c => ?_) fun _ => .update fun {c s} h => ?_
  · rw [perform_forM_warn]
    rfl
  · have contracts : s.contracts = c.store.contracts :=
      congrArg Prod.fst (Store.outline_updateTransactions h)
    exact Prod.ext contracts rfl

/-- A submission adds transactions, but leaves the contracts and the listeners. -/
theorem leaves_submitInputs (id : TaskId) :
    (submitInputs e id).Leaves fun c => (c.store.contracts, c.readers) := by
  refine .bind (.query _) fun task => .ite ?_ (.pure _)
  refine .bind (.query _) fun contract => .bind (.ofExcept _) fun definition => .bind (.view _)
    fun functions => .bind (fun _ => rfl) fun function => ?_
  exact .bind (.ofExcept _) fun method => .bind (fun _ => rfl) fun clock =>
    .bind (fun _ => rfl) fun generated =>
      leaves_submitBatch contract task.id function clock generated

/-- A deployment leaves the listeners. -/
theorem leaves_deployTask (id : TaskId) : (deployTask e id).Leaves Campaign.readers := by
  have analysis : ∀ k, (analyze e k).Leaves Campaign.readers := fun k =>
    .ite (.pure _) (.bind (fun _ => rfl) fun _ => .bind (.ofExcept _) fun _ => .pure _)
  refine .bind (.query _) fun task => .bind (.query _) fun contract => .bind (.query _)
    fun constructor => .bind (.ofExcept _) fun definition => ?_
  refine .bind (fun _ => rfl) fun drawn => .bind (fun _ => rfl) fun deployment => ?_
  refine .bind (fun _ => rfl) fun now => .bind (fun _ => rfl) fun number =>
    .bind (fun _ => rfl) fun _ => ?_
  refine .bind (analysis _) fun k => .bind (.update fun _ => rfl) fun _ => ?_
  exact .bind (fun c => c.readers_publish _ _) fun _ => .pure _

theorem leaves_handle (l : Listener) (task : TaskId) :
    (handle e l task).Leaves Campaign.readers := by
  cases l with
  | deployer => exact leaves_deployTask task
  | fuzzer => exact fun c => congrArg Prod.snd (leaves_submitInputs task c)
  | reporter => exact fun c => Campaign.readers_eq_of_outline (leaves_reportTask task c)

/-- Only the listener that gets an event comes further. -/
theorem readers_deliver (c : Campaign ω) (l : Listener) :
    ((deliver e l).run c).2.readers = (c.setTopic l ((c.topic l).receive 0).2).readers := by
  by_cases received : ∃ task, ((c.topic l).receive 0).1 = .event task
  · obtain ⟨task, received⟩ := received
    have handled := leaves_handle (e := e) l task (c.setTopic l ((c.topic l).receive 0).2)
    rcases hresult : (handle e l task).perform (c.setTopic l ((c.topic l).receive 0).2)
      with ⟨r, c'⟩
    rw [hresult] at handled
    rw [run_deliver_of_event received hresult, ← handled]
    cases r <;> rfl
  · rw [run_deliver_of_none (not_exists.mp received)]

end ContractFuzz
