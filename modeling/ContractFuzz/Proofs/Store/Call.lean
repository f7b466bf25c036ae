import ContractFuzz.Proofs.Store.Index
/-!
# Calls of the store

Everything that changes a store, as data, so that sequences of changes can be reasoned about. A call
concerns one table and leaves all others as they are, whether it succeeds or fails.

## Main definitions

* `StoreCall`, `StoreCall.perform`, `StoreCall.performAll` : calls, one after the other.
* `StoreCall.table` : the table that a call is about.

## Main results

* `StoreCall.same_perform` : a call leaves all tables but its own.
* `IndexedTable.Mirrors.performAll` : a table with an index goes through the same calls.
-/

namespace ContractFuzz

/-! ### Calls -/

/-- What changes a store. -/
inductive StoreCall where
  | createTask (t : Task)
  | updateTask (t : Task)
  | updateTaskStatus (id : TaskId) (status : TaskStatus)
  | mergeExecuted (id : TaskId) (executed : PcSet)
  | createContract (k : Contract)
  | updateContract (k : Contract)
  | createFunctions (fs : List ContractFunction)
  | transactions (call : TransactionCall)

/-- The tables of a store. -/
inductive StoreTable where
  | tasks
  | contracts
  | functions
  | transactions

/-- Two stores have the same records in a table. -/
def StoreTable.Same (s s' : Store) : StoreTable → Prop
  | tasks => s'.tasks = s.tasks
  | contracts => s'.contracts = s.contracts
  | functions => s'.functions = s.functions
  | transactions => s'.transactions = s.transactions

/-- A change of a store that concerns one table: it fails, or nothing else differs after it. -/
def StoreTable.Only (table : StoreTable) (s : Store) (r : Except Failure Store) : Prop :=
  ∀ s', r = .ok s' → ∀ other, other ≠ table → other.Same s s'

namespace StoreCall

/-- The table that a call is about. -/
def table : StoreCall → StoreTable
  | createTask _ => .tasks
  | updateTask _ => .tasks
  | updateTaskStatus _ _ => .tasks
  | mergeExecuted _ _ => .tasks
  | createContract _ => .contracts
  | updateContract _ => .contracts
  | createFunctions _ => .functions
  | transactions _ => .transactions

/-- The ids of the transactions that are created. -/
def created : StoreCall → List TransactionId
  | transactions call => call.created
  | _ => []

/-- The change of the store, or the failure. -/
def apply (s : Store) : StoreCall → Except Failure Store
  | createTask t => .ok (s.createTask t)
  | updateTask t => s.updateTask t
  | updateTaskStatus id status => (s.updateTaskStatus id status).map (·.2)
  | mergeExecuted id executed => (s.mergeExecuted id executed).map (·.2)
  | createContract k => .ok (s.createContract k)
  | updateContract k => s.updateContract k
  | createFunctions fs => .ok (s.createFunctions fs)
  | transactions call => call.apply s

/-- The answer to a call, and the store after it. -/
def perform (call : StoreCall) (s : Store) : Except Failure Unit × Store :=
  match call.apply s with
  | .ok s' => (.ok (), s')
  | .error e => (.error e, s)

/-- The store after one call after the other. -/
def performAll (calls : List StoreCall) (s : Store) : Store :=
  calls.foldl (fun s call => (call.perform s).2) s

end StoreCall

/-! ### The tables that a call leaves -/

namespace StoreTable

variable {s : Store}

theorem only_error {table : StoreTable} {e : Failure} : table.Only s (.error e) :=
  fun _ h => nomatch h

theorem only_tasks (tasks : SortedMap TaskId Task) :
    StoreTable.tasks.Only s (.ok { s with tasks }) := by
  intro s' h other hne
  obtain rfl := Except.ok.inj h
  cases other with
  | tasks => exact absurd rfl hne
  | _ => rfl

theorem only_contracts (contracts : SortedMap ContractId Contract) :
    StoreTable.contracts.Only s (.ok { s with contracts }) := by
  intro s' h other hne
  obtain rfl := Except.ok.inj h
  cases other with
  | contracts => exact absurd rfl hne
  | _ => rfl

theorem only_functions (functions : List ContractFunction) :
    StoreTable.functions.Only s (.ok { s with functions }) := by
  intro s' h other hne
  obtain rfl := Except.ok.inj h
  cases other with
  | functions => exact absurd rfl hne
  | _ => rfl

theorem only_transactions (transactions : List Transaction) :
    StoreTable.transactions.Only s (.ok { s with transactions }) := by
  intro s' h other hne
  obtain rfl := Except.ok.inj h
  cases other with
  | transactions => exact absurd rfl hne
  | _ => rfl

end StoreTable

namespace StoreCall

/-- A call changes its own table only. -/
theorem only_apply (call : StoreCall) (s : Store) : call.table.Only s (call.apply s) := by
  cases call with
  | createTask t => exact StoreTable.only_tasks _
  | updateTask t =>
    rw [apply, Store.updateTask]
    cases s.getTask t.id with
    | error e => exact StoreTable.only_error
    | ok old => exact StoreTable.only_tasks _
  | updateTaskStatus id status =>
    rw [apply, Store.updateTaskStatus]
    cases s.getTask id with
    | error e => exact StoreTable.only_error
    | ok t => exact StoreTable.only_tasks _
  | mergeExecuted id executed =>
    rw [apply, Store.mergeExecuted]
    cases s.getTask id with
    | error e => exact StoreTable.only_error
    | ok t => exact StoreTable.only_tasks _
  | createContract k => exact StoreTable.only_contracts _
  | updateContract k =>
    rw [apply, Store.updateContract]
    cases s.getContract k.id with
    | error e => exact StoreTable.only_error
    | ok old => exact StoreTable.only_contracts _
  | createFunctions fs => exact StoreTable.only_functions _
  | transactions call =>
    cases call with
    | create tx => exact StoreTable.only_transactions _
    | createAll txs => exact StoreTable.only_transactions _
    | update tx =>
      rw [apply, TransactionCall.apply, Store.updateTransaction_eq_ite]
      split
      · exact StoreTable.only_transactions _
      · exact StoreTable.only_error
    | updateAll txs =>
      rw [apply, TransactionCall.apply, Store.updateTransactions_eq_match]
      split
      · exact StoreTable.only_error
      · exact StoreTable.only_transactions _

/-- A call, whether it succeeds or fails, leaves all tables but its own as they are. -/
theorem same_perform (call : StoreCall) (s : Store) (other : StoreTable)
    (h : other ≠ call.table) : other.Same s (call.perform s).2 := by
  have honly := call.only_apply s
  unfold perform
  cases hs' : call.apply s with
  | error e => cases other <;> rfl
  | ok s' => exact honly s' hs' other h

end StoreCall

/-! ### The indexed table beside the store -/

namespace IndexedTable

/-- The table after a call of the store, which may fail or concern other tables. -/
def perform (t : IndexedTable) : StoreCall → IndexedTable
  | .transactions call =>
    match t.apply call with
    | .ok t' => t'
    | .error _ => t
  | _ => t

/-- The table after one call after the other. -/
def performAll (calls : List StoreCall) (t : IndexedTable) : IndexedTable := calls.foldl perform t

variable {t : IndexedTable} {s : Store}

theorem Mirrors.congr {s' : Store} (h : t.Mirrors s) (same : s'.transactions = s.transactions) :
    t.Mirrors s' :=
  ⟨h.rows.trans same.symm, fun id => (h.places id).trans (same ▸ rfl)⟩

theorem Mirrors.perform (h : t.Mirrors s) (call : StoreCall) :
    (t.perform call).Mirrors (call.perform s).2 := by
  by_cases htable : call.table = .transactions
  · obtain ⟨call, rfl⟩ : ∃ tcall, call = .transactions tcall := by
      cases call with
      | transactions call => exact ⟨call, rfl⟩
      | _ => cases htable
    have hagree := h.apply call
    change (match t.apply call with | .ok t' => t' | .error _ => t : IndexedTable).Mirrors
      (StoreCall.perform (.transactions call) s).2
    rw [StoreCall.perform, StoreCall.apply]
    generalize t.apply call = r at hagree
    generalize call.apply s = r' at hagree
    cases hagree with
    | ok hnext => exact hnext
    | error e => exact h
  · have hsame : t.perform call = t := by
      cases call with
      | transactions call => exact absurd rfl htable
      | _ => rfl
    rw [hsame]
    exact h.congr (call.same_perform s .transactions (Ne.symm htable))

theorem Mirrors.performAll (h : t.Mirrors s) (calls : List StoreCall) :
    (t.performAll calls).Mirrors (StoreCall.performAll calls s) := by
  induction calls generalizing t s with
  | nil => exact h
  | cons call calls ih => exact ih (h.perform call)

end IndexedTable

end ContractFuzz
