import ContractFuzz.Proofs.Campaign.Aggregate
import ContractFuzz.Proofs.Campaign.LifeCycle
import ContractFuzz.Proofs.Interleaving.Pool
import Mathlib.Data.List.Nodup
/-!
# Who may change which records

Recorders, the periodic look at tasks and the submission of a batch work on the same records, side
by side. Without the lock, recorders and the look at tasks change nothing but the status of tasks.
With it, they take transactions that were submitted to later versions, and add to aggregates. A
submission adds transactions and changes only those that were not submitted yet.

So whoever holds the lock finds all submitted transactions, and whoever submits finds all
transactions of its batch, as they were read.

## Main definitions

* `Worker` : who works side by side.
* `Store.Progress` : what is never undone.
* `Campaign.Orderly`, `Campaign.Settled` : what is true always, and while the lock is free.
* `conduct` : what each worker may do and what it finds.

## Main results

* `Store.Progress.of_does`, `Store.Progress.of_steps` : whatever workers may do undoes nothing.
-/

namespace ContractFuzz

/-- Who works side by side. -/
inductive Worker where
  /-- One of any number of callbacks from the node. -/
  | recorder (n : Nat)
  /-- The periodic look at all running tasks. -/
  | checker
  /-- The submission of batches. -/
  | submitter
  /-- The world outside. -/
  | outside
deriving DecidableEq

/-! ### What is never undone -/

/-- A later version of a task: it is still done if it was, and all that was executed stays. -/
structure Task.Grows (old new : Task) : Prop where
  done : old.status = .done → new.status = .done
  executed : ∀ pc ∈ old.executed, pc ∈ new.executed

theorem Task.Grows.refl (t : Task) : t.Grows t := ⟨fun h => h, fun _ h => h⟩

theorem Task.Grows.trans {a b c : Task} (hab : a.Grows b) (hbc : b.Grows c) : a.Grows c :=
  ⟨fun h => hbc.done (hab.done h), fun pc h => hbc.executed pc (hab.executed pc h)⟩

namespace Store

variable {s t u : Store}

/-- All tasks are there in later versions. -/
def TasksGrow (s t : Store) : Prop :=
  ∀ id old, s.tasks.get? id = some old → ∃ new, t.tasks.get? id = some new ∧ old.Grows new

theorem TasksGrow.of_eq (h : t.tasks = s.tasks) : s.TasksGrow t :=
  fun _ old hold => ⟨old, h ▸ hold, .refl old⟩

/-- One task may be replaced by a later version. -/
theorem TasksGrow.insert {id : TaskId} {old new : Task} (hold : s.tasks.get? id = some old)
    (grows : old.Grows new) : s.TasksGrow { s with tasks := s.tasks.insert id new } := by
  intro id' old' hold'
  by_cases hid : id' = id
  · subst hid
    obtain rfl := Option.some.inj (hold.symm.trans hold')
    exact ⟨new, SortedMap.get?_insert_self _ _ _, grows⟩
  · exact ⟨old', (SortedMap.get?_insert_of_ne hid).trans hold', .refl old'⟩

/-- Tasks and transactions in later versions. -/
structure Progress (s t : Store) : Prop where
  tasks : s.TasksGrow t
  transactions : Transaction.Evolve s.transactions t.transactions

theorem Progress.refl (s : Store) : s.Progress s := ⟨.of_eq rfl, .refl _⟩

theorem Progress.trans (hst : s.Progress t) (htu : t.Progress u) : s.Progress u where
  tasks id old hold := by
    obtain ⟨new, hnew, grows⟩ := hst.tasks id old hold
    obtain ⟨new', hnew', grows'⟩ := htu.tasks id new hnew
    exact ⟨new', hnew', grows.trans grows'⟩
  transactions := hst.transactions.trans htu.transactions

/-! ### Aggregates -/

/-- What was executed for a task according to the task. -/
def aggregate? (id : TaskId) (s : Store) : Option PcSet := (s.tasks.get? id).map (·.executed)

theorem aggregate?_eq_some_iff {id : TaskId} {all : PcSet} :
    s.aggregate? id = some all ↔ ∃ t, s.tasks.get? id = some t ∧ t.executed = all :=
  Option.map_eq_some_iff

/-- A task may be replaced by a version with the same aggregate. -/
theorem aggregate?_insert {id : TaskId} {old new : Task} (hold : s.tasks.get? id = some old)
    (same : new.executed = old.executed) (id' : TaskId) :
    aggregate? id' { s with tasks := s.tasks.insert id new } = s.aggregate? id' := by
  unfold aggregate?
  by_cases hid : id' = id
  · subst hid
    rw [SortedMap.get?_insert_self, hold, Option.map_some, Option.map_some, same]
  · rw [SortedMap.get?_insert_of_ne hid]

theorem executedFor_congr (h : t.transactions = s.transactions) (id : TaskId) :
    t.executedFor id = s.executedFor id := by
  rw [executedFor, executedFor, transactionsOf, transactionsOf, h]

/-- Versions that executed the same leave what was executed for a task as it is. -/
theorem executedFor_eq_of_forall₂ (h : List.Forall₂
    (fun old new : Transaction => new.task = old.task ∧ new.executed = old.executed)
    s.transactions t.transactions) (id : TaskId) : t.executedFor id = s.executedFor id := by
  refine SortedSet.ext_mem fun pc => ?_
  rw [mem_executedFor, mem_executedFor]
  constructor
  · rintro ⟨new, hnew, htask, hpc⟩
    obtain ⟨old, hold, hsame, hexecuted⟩ := (exists_mem_of_forall₂ h).2 new hnew
    exact ⟨old, hold, hsame ▸ htask, hexecuted ▸ hpc⟩
  · rintro ⟨old, hold, htask, hpc⟩
    obtain ⟨new, hnew, hsame, hexecuted⟩ := (exists_mem_of_forall₂ h).1 old hold
    exact ⟨new, hnew, hsame.trans htask, hexecuted ▸ hpc⟩

/-- Further transactions that executed nothing leave what was executed for a task as it is. -/
theorem executedFor_append {txs : List Transaction} (quiet : ∀ tx ∈ txs, tx.executed = .empty)
    (id : TaskId) :
    executedFor id { s with transactions := s.transactions ++ txs } = s.executedFor id := by
  refine SortedSet.ext_mem fun pc => ?_
  rw [mem_executedFor, mem_executedFor]
  refine ⟨fun ⟨tx, htx, hboth⟩ => ?_, fun ⟨tx, htx, hboth⟩ =>
    ⟨tx, List.mem_append_left _ htx, hboth⟩⟩
  rcases List.mem_append.mp htx with htx | htx
  · exact ⟨tx, htx, hboth⟩
  · have hpc := hboth.2
    rw [quiet tx htx] at hpc
    exact absurd hpc (SortedSet.not_mem_empty pc)

end Store

namespace Campaign

variable {ω : Type} {c c' c'' : Campaign ω}

/-! ### What is true always, and what while the lock is free -/

/-- Transactions have distinct ids that were handed out, and their hashes and outcomes go with their
status. -/
structure Orderly (c : Campaign ω) : Prop where
  distinct : (c.store.transactions.map (·.id)).Nodup
  numbered : ∀ tx ∈ c.store.transactions, tx.id.number < c.nextTransaction
  regular : ∀ tx ∈ c.store.transactions, tx.Regular

/-- Every aggregate is what the transactions of the task executed. -/
def Settled (c : Campaign ω) : Prop :=
  ∀ id all, c.store.aggregate? id = some all → all = c.store.executedFor id

theorem Orderly.of_eq (h : c.Orderly) (transactions : c'.store.transactions = c.store.transactions)
    (number : c'.nextTransaction = c.nextTransaction) : c'.Orderly :=
  ⟨transactions ▸ h.distinct, transactions ▸ number ▸ h.numbered, transactions ▸ h.regular⟩

theorem Settled.of_eq (h : c.Settled) (aggregate : ∀ id, c'.store.aggregate? id =
    c.store.aggregate? id) (executedFor : ∀ id, c'.store.executedFor id = c.store.executedFor id) :
    c'.Settled :=
  fun id all hall => (h id all (aggregate id ▸ hall)).trans (executedFor id).symm

/-! ### What workers may do -/

/-- Without the lock, only the status of tasks may change. -/
structure WithoutLock (c c' : Campaign ω) : Prop where
  tasks : c.store.TasksGrow c'.store
  aggregate : ∀ id, c'.store.aggregate? id = c.store.aggregate? id
  transactions : c'.store.transactions = c.store.transactions
  number : c'.nextTransaction = c.nextTransaction

/-- With the lock, aggregates may grow and transactions that were submitted may change. -/
structure WithLock (c c' : Campaign ω) : Prop where
  tasks : c.store.TasksGrow c'.store
  transactions : List.Forall₂ (fun old new => old.Becomes new ∧ (old.status = .created → new = old))
    c.store.transactions c'.store.transactions
  number : c'.nextTransaction = c.nextTransaction

/-- A submission may add transactions that executed nothing, and change those that were not
submitted yet. -/
structure InSubmission (c c' : Campaign ω) : Prop where
  tasks : c'.store.tasks = c.store.tasks
  transactions : Transaction.Evolve c.store.transactions c'.store.transactions
  submitted : ∀ tx ∈ c.store.transactions, tx.status ≠ .created → tx ∈ c'.store.transactions
  executedFor : ∀ id, c'.store.executedFor id = c.store.executedFor id

/-! ### What workers find -/

/-- Whoever holds the lock finds everything as it was except for transactions that were not
submitted yet, and the status of tasks. -/
structure KeptForHolder (c c' : Campaign ω) : Prop where
  submitted : ∀ tx ∈ c.store.transactions, tx.status ≠ .created → tx ∈ c'.store.transactions
  aggregate : ∀ id, c'.store.aggregate? id = c.store.aggregate? id
  executedFor : ∀ id, c'.store.executedFor id = c.store.executedFor id

/-- Whoever submits finds no further transactions, and those that were not submitted yet as they
were. -/
structure KeptForSubmitter (c c' : Campaign ω) : Prop where
  ids : c'.store.transactions.map (·.id) = c.store.transactions.map (·.id)
  created : ∀ tx ∈ c.store.transactions, tx.status = .created → tx ∈ c'.store.transactions
  number : c'.nextTransaction = c.nextTransaction

theorem WithoutLock.keptForHolder (h : c.WithoutLock c') : c.KeptForHolder c' where
  submitted _ htx _ := h.transactions ▸ htx
  aggregate := h.aggregate
  executedFor := Store.executedFor_congr h.transactions

theorem WithoutLock.keptForSubmitter (h : c.WithoutLock c') : c.KeptForSubmitter c' where
  ids := congrArg _ h.transactions
  created _ htx _ := h.transactions ▸ htx
  number := h.number

theorem WithLock.keptForSubmitter (h : c.WithLock c') : c.KeptForSubmitter c' where
  ids := by
    have hsame : List.Forall₂ (· = ·) (c.store.transactions.map (·.id))
        (c'.store.transactions.map (·.id)) :=
      List.forall₂_map_left_iff.mpr (List.forall₂_map_right_iff.mpr
        (h.transactions.imp fun _ _ hboth => hboth.1.id.symm))
    exact (List.forall₂_eq_eq_eq ▸ hsame).symm
  created tx htx hcreated := by
    obtain ⟨new, hnew, -, hsame⟩ := (exists_mem_of_forall₂ h.transactions).1 tx htx
    exact hsame hcreated ▸ hnew
  number := h.number

theorem InSubmission.keptForHolder (h : c.InSubmission c') : c.KeptForHolder c' where
  submitted := h.submitted
  aggregate id := by rw [Store.aggregate?, Store.aggregate?, h.tasks]
  executedFor := h.executedFor

theorem KeptForHolder.refl (c : Campaign ω) : c.KeptForHolder c :=
  ⟨fun _ htx _ => htx, fun _ => rfl, fun _ => rfl⟩

theorem KeptForHolder.trans (h : c.KeptForHolder c') (h' : c'.KeptForHolder c'') :
    c.KeptForHolder c'' where
  submitted tx htx hstatus := h'.submitted tx (h.submitted tx htx hstatus) hstatus
  aggregate id := (h'.aggregate id).trans (h.aggregate id)
  executedFor id := (h'.executedFor id).trans (h.executedFor id)

theorem KeptForSubmitter.refl (c : Campaign ω) : c.KeptForSubmitter c :=
  ⟨rfl, fun _ htx _ => htx, rfl⟩

theorem KeptForSubmitter.trans (h : c.KeptForSubmitter c') (h' : c'.KeptForSubmitter c'') :
    c.KeptForSubmitter c'' where
  ids := h'.ids.trans h.ids
  created tx htx hstatus := h'.created tx (h.created tx htx hstatus) hstatus
  number := h'.number.trans h.number

theorem Settled.keptForHolder (h : c.Settled) (kept : c.KeptForHolder c') : c'.Settled :=
  h.of_eq kept.aggregate kept.executedFor

/-- The steps that a worker may take. -/
def Does (i : Worker) (held : Bool) : Campaign ω → Campaign ω → Prop :=
  match held, i with
  | true, _ => WithLock
  | false, .submitter => InSubmission
  | false, _ => WithoutLock

/-- What a worker finds. -/
def Finds (i : Worker) (held : Bool) : Campaign ω → Campaign ω → Prop :=
  match held, i with
  | true, _ => KeptForHolder
  | false, .submitter => KeptForSubmitter
  | false, _ => fun _ _ => True

theorem Finds.refl (i : Worker) (held : Bool) (c : Campaign ω) : Finds i held c c := by
  cases held with
  | true => exact KeptForHolder.refl c
  | false => cases i <;> first | exact trivial | exact KeptForSubmitter.refl c

theorem Finds.trans {i : Worker} {held : Bool} (h : Finds i held c c') (h' : Finds i held c' c'') :
    Finds i held c c'' := by
  cases held with
  | true => exact KeptForHolder.trans h h'
  | false => cases i <;> first | exact trivial | exact KeptForSubmitter.trans h h'

/-- Whatever is done without the lock, its holder finds what it needs. -/
theorem Does.keptForHolder {j : Worker} (h : Does j false c c') : c.KeptForHolder c' := by
  cases j <;> first | exact WithoutLock.keptForHolder h | exact InSubmission.keptForHolder h

/-- Whatever another worker does, the submitter finds what it needs. -/
theorem Does.keptForSubmitter {j : Worker} (hj : j ≠ .submitter) {held : Bool}
    (h : Does j held c c') : c.KeptForSubmitter c' := by
  cases held with
  | true => exact WithLock.keptForSubmitter h
  | false => cases j <;> first | exact absurd rfl hj | exact WithoutLock.keptForSubmitter h

/-- Whatever one worker does, another one finds what it needs, unless both hold the lock. -/
theorem Does.finds {i j : Worker} (hne : i ≠ j) {held held' : Bool}
    (apart : held = true → held' = false) (h : Does j held' c c') : Finds i held c c' := by
  cases held with
  | true => exact Does.keptForHolder (apart rfl ▸ h)
  | false => cases i <;> first | exact trivial | exact h.keptForSubmitter hne.symm

end Campaign

open Campaign in
/-- How recorders, the look at tasks and the submission of batches deal with the records. -/
def conduct (ω : Type) : Discipline Worker (Campaign ω) where
  Always := Orderly
  Free := Settled
  Does := Does
  Sees := Finds
  sees_refl := .refl
  sees_trans := .trans
  sees_of_does hne apart h := h.finds hne apart
  free_of_does free h := free.keptForHolder h.keptForHolder
  free_of_sees free h := free.keptForHolder h

/-! ### Revised transactions -/

/-- A transaction as it was, or a later version of one of which `P` is true. -/
def Transaction.Revised (P : Transaction → Prop) (old new : Transaction) : Prop :=
  new = old ∨ P old ∧ old.Becomes new ∧ new.Regular

theorem Transaction.Revised.becomes {P : Transaction → Prop} {old new : Transaction}
    (h : old.Revised P new) : old.Becomes new := by
  rcases h with rfl | ⟨-, becomes, -⟩
  · exact .refl new
  · exact becomes

/-- One transaction is revised where it stands. -/
theorem revised_middle {P : Transaction → Prop} {old new : Transaction}
    (h : old.Revised P new) (before after : List Transaction) :
    List.Forall₂ (Transaction.Revised P) (before ++ old :: after) (before ++ new :: after) :=
  List.rel_append (List.forall₂_same.mpr fun _ _ => .inl rfl)
    (.cons h (List.forall₂_same.mpr fun _ _ => .inl rfl))

/-- The store with other transactions. -/
def Store.withTransactions (s : Store) (txs : List Transaction) : Store :=
  { s with transactions := txs }

namespace Campaign

variable {ω : Type} {c : Campaign ω} {P : Transaction → Prop} {txs : List Transaction}

/-- Revised transactions are in order. -/
theorem Orderly.revise (h : c.Orderly)
    (revised : List.Forall₂ (Transaction.Revised P) c.store.transactions txs) :
    Orderly { c with store := c.store.withTransactions txs } where
  distinct := by
    have hids : List.Forall₂ (· = ·) (c.store.transactions.map (·.id)) (txs.map (·.id)) :=
      List.forall₂_map_left_iff.mpr (List.forall₂_map_right_iff.mpr
        (revised.imp fun _ _ hrevised => hrevised.becomes.id.symm))
    exact (List.forall₂_eq_eq_eq ▸ hids : _ = _) ▸ h.distinct
  numbered new hnew := by
    obtain ⟨old, hold, hrevised⟩ := (exists_mem_of_forall₂ revised).2 new hnew
    exact hrevised.becomes.id ▸ h.numbered old hold
  regular new hnew := by
    obtain ⟨old, hold, rfl | ⟨-, -, regular⟩⟩ := (exists_mem_of_forall₂ revised).2 new hnew
    · exact h.regular new hold
    · exact regular

/-- With the lock, transactions that were submitted may be revised. -/
theorem WithLock.revise
    (revised : List.Forall₂ (Transaction.Revised (·.status ≠ .created)) c.store.transactions txs) :
    c.WithLock { c with store := c.store.withTransactions txs } where
  tasks := .of_eq rfl
  transactions := by
    refine revised.imp fun old new hrevised => ⟨hrevised.becomes, fun hcreated => ?_⟩
    rcases hrevised with rfl | ⟨hsubmitted, -⟩
    · rfl
    · exact absurd hcreated hsubmitted
  number := rfl

/-- In a submission, transactions may be revised that were not submitted yet. -/
theorem InSubmission.revise
    (revised : List.Forall₂ (Transaction.Revised (·.status = .created)) c.store.transactions txs)
    (executedFor : ∀ id, (c.store.withTransactions txs).executedFor id = c.store.executedFor id) :
    c.InSubmission { c with store := c.store.withTransactions txs } where
  tasks := rfl
  transactions := .of_versions (revised.imp fun _ _ => Transaction.Revised.becomes)
  submitted tx htx hsubmitted := by
    obtain ⟨new, hnew, rfl | ⟨hcreated, -⟩⟩ := (exists_mem_of_forall₂ revised).1 tx htx
    · exact hnew
    · exact absurd hcreated hsubmitted
  executedFor := executedFor

/-- A stored transaction can be replaced where it stands. -/
theorem Orderly.updateTransaction (h : c.Orderly) {old new : Transaction}
    (hold : old ∈ c.store.transactions) (hid : old.id = new.id) :
    ∃ before after, c.store.transactions = before ++ old :: after ∧
      c.store.updateTransaction new = .ok (c.store.withTransactions (before ++ new :: after)) := by
  obtain ⟨before, after, split⟩ := List.append_of_mem hold
  have hdistinct := h.distinct
  rw [split, List.map_append, List.map_cons] at hdistinct
  have hafter := (List.nodup_cons.mp (List.nodup_append.mp hdistinct).2.1).1
  refine ⟨before, after, split, Store.updateTransaction_eq split hid fun tx htx heq => ?_⟩
  exact hafter (List.mem_map.mpr ⟨tx, htx, heq.trans hid.symm⟩)

/-- If copies of stored transactions are changed and written back, nothing else changes. -/
theorem Orderly.updateTransactions (h : c.Orderly) {copies : List Transaction}
    {f : Transaction → Transaction} {s : Store} (hid : ∀ tx, (f tx).id = tx.id)
    (kept : ∀ tx ∈ copies, tx ∈ c.store.transactions)
    (hs : c.store.updateTransactions (copies.map f) = .ok s) :
    ∃ txs, s = c.store.withTransactions txs ∧
      List.Forall₂ (fun old new => new = old ∨ old ∈ copies ∧ new = f old)
        c.store.transactions txs := by
  refine ⟨_, Store.eq_of_updateTransactions hs, ?_⟩
  have hall := (List.forall₂_and_left (p := (· ∈ c.store.transactions)) _ _).mpr
    ⟨fun _ htx => htx, forall₂_foldl_replaceLast hid copies _⟩
  refine hall.imp ?_
  rintro old new ⟨hold, rfl | ⟨copy, hcopy, hsame, rfl⟩⟩
  · exact .inl rfl
  · obtain rfl := List.inj_on_of_nodup_map h.distinct (kept copy hcopy) hold hsame
    exact .inr ⟨hcopy, rfl⟩

end Campaign

namespace Store.Progress

variable {ω : Type} {c c' : Campaign ω}

/-- Whatever workers may do undoes nothing. -/
theorem of_does {i : Worker} {held : Bool} (h : Campaign.Does i held c c') :
    c.store.Progress c'.store := by
  have withoutLock (h : c.WithoutLock c') : c.store.Progress c'.store :=
    ⟨h.tasks, h.transactions ▸ .refl _⟩
  have withLock (h : c.WithLock c') : c.store.Progress c'.store :=
    ⟨h.tasks, .of_versions (h.transactions.imp fun _ _ hboth => hboth.1)⟩
  have inSubmission (h : c.InSubmission c') : c.store.Progress c'.store :=
    ⟨.of_eq h.tasks, h.transactions⟩
  cases held with
  | true => exact withLock h
  | false => cases i <;> first | exact withoutLock h | exact inSubmission h

/-- Nor does any number of their steps. -/
theorem of_steps
    (h : Relation.ReflTransGen (fun c c' => ∃ i held, Campaign.Does i held c c') c c') :
    c.store.Progress c'.store := by
  induction h with
  | refl => exact .refl _
  | tail _ step ih =>
    obtain ⟨i, held, does⟩ := step
    exact ih.trans (of_does does)

end Store.Progress

end ContractFuzz
