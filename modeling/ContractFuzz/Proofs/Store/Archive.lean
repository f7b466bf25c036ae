import ContractFuzz.Proofs.Store.Call
import Mathlib.Data.List.Nodup
/-!
# The store as an archive

The store that a reader has in mind: finite maps of tasks and contracts, a list of functions, and of
the transactions the ids in the order of their creation together with everything that was ever
written under them. As long as no id is given to two transactions, the store shows after every
sequence of calls what the archive shows, and accepts and refuses the same calls.

## Main definitions

* `Archive`, `Archive.performAll` : the abstract store, and what the calls mean for it.
* `StoreCall.missing?` : the record for want of which a call is refused.
* `Archive.Shows` : every query of the store answers what the archive says.

## Main results

* `Archive.Represents.perform` : what one call does to the store and to its archive.
* `StoreCall.performAll_refines` : what all calls do.
-/

namespace ContractFuzz

/-! ### The archive -/

/-- What the calls of a store have put into it. -/
structure Archive where
  /-- The tasks. -/
  tasks : TaskId → Option Task
  /-- The contracts. -/
  contracts : ContractId → Option Contract
  /-- The functions, in the order of their creation. -/
  functions : List ContractFunction
  /-- The ids of the transactions, in the order of their creation. -/
  created : List TransactionId
  /-- All versions of transactions that were written, in the order of writing. -/
  written : List Transaction

/-- What a call is refused for: the record that it means to change is unknown. Of several
transactions it is the first unknown one. -/
def StoreCall.missing? (a : Archive) : StoreCall → Option MissingRecord
  | updateTask t => if (a.tasks t.id).isSome then none else some (.task t.id)
  | updateTaskStatus id _ => if (a.tasks id).isSome then none else some (.task id)
  | mergeExecuted id _ => if (a.tasks id).isSome then none else some (.task id)
  | updateContract k => if (a.contracts k.id).isSome then none else some (.contract k.id)
  | transactions (.update tx) => if tx.id ∈ a.created then none else some (.transaction tx.id)
  | transactions (.updateAll txs) =>
    (txs.find? fun tx => decide (tx.id ∉ a.created)).map fun tx => .transaction tx.id
  | _ => none

namespace Archive

/-- The archive of the store without records. -/
def empty : Archive := ⟨fun _ => none, fun _ => none, [], [], []⟩

/-- Put a task under an id. -/
def putTask (a : Archive) (id : TaskId) (t : Option Task) : Archive :=
  { a with tasks := fun i => if i = id then t else a.tasks i }

/-- Put a contract under its id. -/
def putContract (a : Archive) (k : Contract) : Archive :=
  { a with contracts := fun i => if i = k.id then some k else a.contracts i }

/-- What a call that is not refused adds. -/
def write (a : Archive) : StoreCall → Archive
  | .createTask t => a.putTask t.id (some t)
  | .updateTask t => a.putTask t.id (some t)
  | .updateTaskStatus id status =>
    a.putTask id ((a.tasks id).map fun t => { t with status })
  | .mergeExecuted id executed => a.putTask id ((a.tasks id).map (·.mergeExecuted executed))
  | .createContract k => a.putContract k
  | .updateContract k => a.putContract k
  | .createFunctions fs => { a with functions := a.functions ++ fs }
  | .transactions (.create tx) =>
    { a with created := a.created ++ [tx.id], written := a.written ++ [tx] }
  | .transactions (.createAll txs) =>
    { a with created := a.created ++ txs.map (·.id), written := a.written ++ txs }
  | .transactions (.update tx) => { a with written := a.written ++ [tx] }
  | .transactions (.updateAll txs) => { a with written := a.written ++ txs }

/-- The archive after a call, which may be refused. -/
def perform (call : StoreCall) (a : Archive) : Archive :=
  if (call.missing? a).isSome then a else a.write call

/-- The archive after one call after the other. -/
def performAll (calls : List StoreCall) (a : Archive) : Archive :=
  calls.foldl (fun a call => a.perform call) a

/-- The version that was written last under an id. -/
def latest? (a : Archive) (id : TransactionId) : Option Transaction := lastWithId? id a.written

/-- The last version of every transaction, in the order of their creation. -/
def current (a : Archive) : List Transaction := a.created.filterMap a.latest?

/-- Every query of the store answers what the archive says. -/
structure Shows (a : Archive) (s : Store) : Prop where
  /-- A task is the last version of it. -/
  task : ∀ id, s.getTask id = orMissing (.task id) (a.tasks id)
  /-- So is a contract. -/
  contract : ∀ id, s.getContract id = orMissing (.contract id) (a.contracts id)
  /-- The functions are those that were created. -/
  functions : s.functions = a.functions
  /-- A transaction is the version of it that was written last. -/
  transaction : ∀ id, s.getTransaction id = orMissing (.transaction id) (a.latest? id)
  /-- The transactions of a task are the last versions of them, in the order of creation. -/
  ofTask : ∀ task, s.transactionsOf task = a.current.filter (·.task == task)
  /-- Of the last versions with a hash, the one that was created first is found. -/
  withHash : ∀ hash, s.transactionWithHash hash =
    orMissing (.transactionWithHash hash) (a.current.find? (·.hash == some hash))
  /-- Every transaction that was created has one last version. -/
  once : a.current.map (·.id) = a.created ∧ a.created.Nodup

/-- The store has the records of the archive, each in its last version, and the transactions in the
order of their creation. -/
structure Represents (a : Archive) (s : Store) : Prop where
  tasks : ∀ id, s.tasks.get? id = a.tasks id
  contracts : ∀ id, s.contracts.get? id = a.contracts id
  functions : s.functions = a.functions
  ids : s.transactions.map (·.id) = a.created
  distinct : a.created.Nodup
  latest : ∀ tx ∈ s.transactions, a.latest? tx.id = some tx
  written : ∀ tx ∈ a.written, tx.id ∈ a.created

variable {a : Archive} {s : Store}

theorem represents_empty : empty.Represents Store.empty where
  tasks := SortedMap.get?_empty
  contracts := SortedMap.get?_empty
  functions := rfl
  ids := rfl
  distinct := .nil
  latest := fun _ hmem => absurd hmem List.not_mem_nil
  written := fun _ hmem => absurd hmem List.not_mem_nil

namespace Represents

/-! ### Queries -/

theorem getTask_eq (h : a.Represents s) (id : TaskId) :
    s.getTask id = orMissing (.task id) (a.tasks id) := by
  rw [Store.getTask, h.tasks]

theorem getContract_eq (h : a.Represents s) (id : ContractId) :
    s.getContract id = orMissing (.contract id) (a.contracts id) := by
  rw [Store.getContract, h.contracts]

/-- Without a created transaction there is no version of it. -/
theorem latest?_of_not_mem (h : a.Represents s) {id : TransactionId} (hid : id ∉ a.created) :
    a.latest? id = none :=
  lastWithId?_eq_none fun tx hmem heq => hid (heq ▸ h.written tx hmem)

/-- The rows of the store are the last versions of the transactions. -/
theorem current_eq (h : a.Represents s) : a.current = s.transactions := by
  have hlatest := h.latest
  rw [current, ← h.ids]
  clear h
  generalize s.transactions = rows at hlatest
  induction rows with
  | nil => rfl
  | cons tx rows ih =>
    rw [List.map_cons, List.filterMap_cons, hlatest tx List.mem_cons_self,
      ih fun tx' hmem => hlatest tx' (List.mem_cons_of_mem _ hmem)]

theorem getTransaction_eq (h : a.Represents s) (id : TransactionId) :
    s.getTransaction id = orMissing (.transaction id) (a.latest? id) := by
  rw [Store.getTransaction]
  by_cases hid : id ∈ s.transactions.map (·.id)
  · obtain ⟨before, tx, after, hsplit, rfl, hafter⟩ := exists_last_of_mem hid
    rw [hsplit, lastWithId?_append_cons rfl hafter,
      h.latest tx (hsplit ▸ List.mem_append_right _ List.mem_cons_self)]
  · rw [h.latest?_of_not_mem (h.ids ▸ hid), lastWithId?_eq_none fun tx hmem heq =>
      hid (List.mem_map.mpr ⟨tx, hmem, heq⟩)]

/-- Every query of the store answers what the archive says. -/
theorem shows (h : a.Represents s) : a.Shows s where
  task := h.getTask_eq
  contract := h.getContract_eq
  functions := h.functions
  transaction := h.getTransaction_eq
  ofTask := fun task => by rw [Store.transactionsOf, h.current_eq]
  withHash := fun hash => by rw [Store.transactionWithHash, h.current_eq]
  once := ⟨h.current_eq ▸ h.ids, h.distinct⟩

/-! ### Changes -/

theorem putTask (h : a.Represents s) (id : TaskId) (t : Task) :
    (a.putTask id (some t)).Represents { s with tasks := s.tasks.insert id t } where
  __ := h
  tasks := fun i => by rw [SortedMap.get?_insert, h.tasks]; rfl

theorem putContract (h : a.Represents s) (k : Contract) :
    (a.putContract k).Represents { s with contracts := s.contracts.insert k.id k } where
  __ := h
  contracts := fun i => by rw [SortedMap.get?_insert, h.contracts]; rfl

theorem createAll (h : a.Represents s) (txs : List Transaction)
    (fresh : (a.created ++ txs.map (·.id)).Nodup) :
    Represents { a with created := a.created ++ txs.map (·.id), written := a.written ++ txs }
      (s.createTransactions txs) := by
  obtain ⟨-, distinct, apart⟩ := List.nodup_append.mp fresh
  refine { h with
    ids := by rw [Store.createTransactions, List.map_append, h.ids]
    distinct := fresh
    latest := fun tx hmem => ?_
    written := fun tx hmem => ?_ }
  · rw [latest?, lastWithId?_append]
    rcases List.mem_append.mp hmem with hold | hnew
    · have hid : tx.id ∈ a.created := h.ids ▸ List.mem_map_of_mem hold
      have hnone : lastWithId? tx.id txs = none := lastWithId?_eq_none fun tx' hmem' =>
        (apart tx.id hid tx'.id (List.mem_map_of_mem hmem')).symm
      rw [hnone, Option.none_or]
      exact h.latest tx hold
    · obtain ⟨before, after, rfl⟩ := List.append_of_mem hnew
      rw [List.map_append, List.map_cons, List.nodup_middle, List.nodup_cons] at distinct
      have hafter : ∀ tx' ∈ after, tx'.id ≠ tx.id := fun tx' hmem' heq =>
        distinct.1 (List.mem_append_right _ (List.mem_map.mpr ⟨tx', hmem', heq⟩))
      rw [lastWithId?_append_cons rfl hafter, Option.some_or]
  · rcases List.mem_append.mp hmem with hold | hnew
    · exact List.mem_append_left _ (h.written tx hold)
    · exact List.mem_append_right _ (List.mem_map_of_mem hnew)

theorem update (h : a.Represents s) {tx : Transaction} (known : tx.id ∈ a.created) :
    Represents { a with written := a.written ++ [tx] }
      { s with transactions := replaceLast tx s.transactions } := by
  refine { h with
    ids := (map_id_replaceLast tx s.transactions).trans h.ids
    latest := ?_
    written := List.forall_mem_append.mpr ⟨h.written, List.forall_mem_singleton.mpr known⟩ }
  obtain ⟨before, old, after, hsplit, hid, hafter⟩ := exists_last_of_mem (h.ids ▸ known)
  have hlatest := h.latest
  have distinct := h.ids ▸ h.distinct
  dsimp only
  rw [hsplit] at hlatest distinct ⊢
  rw [List.map_append, List.map_cons, List.nodup_middle, List.nodup_cons, ← List.map_append, hid]
    at distinct
  rw [replaceLast_append_cons hid hafter]
  -- The new version stands where the old one stood; the others are of other ids.
  refine forall_mem_middle_iff.mpr ⟨?_, fun tx' hmem => ?_⟩
  · rw [latest?, lastWithId?_append, lastWithId?, lastWithId?, if_pos rfl, Option.some_or]
  · have hne : ¬ tx.id = tx'.id := fun heq =>
      distinct.1 (List.mem_map.mpr ⟨tx', hmem, heq.symm⟩)
    rw [latest?, lastWithId?_append, lastWithId?, lastWithId?, if_neg hne, Option.none_or]
    exact (forall_mem_middle_iff.mp hlatest).2 tx' hmem

theorem updateAll (h : a.Represents s) {txs : List Transaction}
    (known : ∀ tx ∈ txs, tx.id ∈ a.created) :
    Represents { a with written := a.written ++ txs }
      { s with transactions := txs.foldl (fun all tx => replaceLast tx all) s.transactions } := by
  induction txs generalizing a s with
  | nil =>
    rw [List.append_nil]
    exact h
  | cons tx txs ih =>
    have hrest := ih (h.update (known tx List.mem_cons_self)) fun tx' hmem =>
      known tx' (List.mem_cons_of_mem _ hmem)
    rwa [List.append_assoc] at hrest

/-! ### Calls -/

/-- A call is refused for want of the missing record. If none is missing, the store follows the
archive, unless an id is given to a second transaction. -/
inductive Follows (a : Archive) (call : StoreCall) :
    Option MissingRecord → Except Failure Store → Prop
  | refused (m : MissingRecord) : Follows a call (some m) (.error (.notFound m))
  | accepted {s' : Store}
      (h : (a.created ++ call.created).Nodup → (a.write call).Represents s') :
      Follows a call none (.ok s')

theorem follows (h : a.Represents s) (call : StoreCall) :
    Follows a call (call.missing? a) (call.apply s) := by
  cases call with
  | createTask t => exact .accepted fun _ => h.putTask t.id t
  | createContract k => exact .accepted fun _ => h.putContract k
  | createFunctions fs =>
    exact .accepted fun _ => { h with functions := congrArg (· ++ fs) h.functions }
  | updateTask t =>
    rw [StoreCall.missing?, StoreCall.apply, Store.updateTask, h.getTask_eq]
    cases a.tasks t.id with
    | none => exact .refused _
    | some old => exact .accepted fun _ => h.putTask t.id t
  | updateTaskStatus id status =>
    rw [StoreCall.missing?, StoreCall.apply, Store.updateTaskStatus, h.getTask_eq]
    cases ht : a.tasks id with
    | none => exact .refused _
    | some t =>
      refine .accepted fun _ => ?_
      rw [write, ht]
      exact h.putTask id { t with status }
  | mergeExecuted id executed =>
    rw [StoreCall.missing?, StoreCall.apply, Store.mergeExecuted, h.getTask_eq]
    cases ht : a.tasks id with
    | none => exact .refused _
    | some t =>
      refine .accepted fun _ => ?_
      rw [write, ht]
      exact h.putTask id (t.mergeExecuted executed)
  | updateContract k =>
    rw [StoreCall.missing?, StoreCall.apply, Store.updateContract, h.getContract_eq]
    cases a.contracts k.id with
    | none => exact .refused _
    | some old => exact .accepted fun _ => h.putContract k
  | transactions call =>
    cases call with
    | create tx => exact .accepted (h.createAll [tx])
    | createAll txs => exact .accepted (h.createAll txs)
    | update tx =>
      rw [StoreCall.missing?, StoreCall.apply, TransactionCall.apply,
        Store.updateTransaction_eq_ite, h.ids]
      split
      · next known => exact .accepted fun _ => h.update known
      · exact .refused _
    | updateAll txs =>
      rw [StoreCall.missing?, StoreCall.apply, TransactionCall.apply,
        Store.updateTransactions_eq_match, Store.firstUnknown?, h.ids]
      cases hunknown : txs.find? fun tx => decide (tx.id ∉ a.created) with
      | some tx => exact .refused _
      | none =>
        have known : ∀ tx ∈ txs, tx.id ∈ a.created := fun tx hmem => by
          simpa using List.find?_eq_none.mp hunknown tx hmem
        exact .accepted fun _ => h.updateAll known

/-- A call that lacks a record fails and leaves the store as it is. -/
theorem perform_of_missing (h : a.Represents s) {call : StoreCall} {m : MissingRecord}
    (hm : call.missing? a = some m) : call.perform s = (.error (.notFound m), s) := by
  have hfollows := h.follows call
  rw [hm] at hfollows
  unfold StoreCall.perform
  generalize call.apply s = r at hfollows
  cases hfollows
  rfl

/-- All other calls succeed. -/
theorem exists_perform (h : a.Represents s) {call : StoreCall} (hm : call.missing? a = none) :
    ∃ s', call.perform s = (.ok (), s') ∧
      ((a.created ++ call.created).Nodup → (a.write call).Represents s') := by
  have hfollows := h.follows call
  rw [hm] at hfollows
  unfold StoreCall.perform
  generalize call.apply s = r at hfollows
  cases hfollows with
  | accepted hwrite => exact ⟨_, rfl, hwrite⟩

/-- Only calls that are not refused create transactions. -/
theorem created_perform (a : Archive) (call : StoreCall) :
    (a.perform call).created = a.created ++ call.created := by
  unfold perform
  split
  · next hm =>
    have hnone : call.created = [] := by
      cases call with
      | transactions call => cases call <;> first | rfl | cases hm
      | _ => rfl
    rw [hnone, List.append_nil]
  · cases call with
    | transactions call =>
      cases call <;> first | rfl | exact (List.append_nil _).symm
    | _ => exact (List.append_nil _).symm

/-- Every call keeps the store in step with its archive. -/
theorem perform (h : a.Represents s) {call : StoreCall}
    (fresh : (a.created ++ call.created).Nodup) :
    (a.perform call).Represents (call.perform s).2 := by
  unfold Archive.perform
  cases hm : call.missing? a with
  | some m =>
    rw [h.perform_of_missing hm]
    exact h
  | none =>
    obtain ⟨s', hs', hwrite⟩ := h.exists_perform hm
    rw [hs']
    exact hwrite fresh

/-- So do all calls, one after the other. -/
theorem performAll (h : a.Represents s) (calls : List StoreCall)
    (fresh : (a.created ++ calls.flatMap StoreCall.created).Nodup) :
    (a.performAll calls).Represents (StoreCall.performAll calls s) ∧
    (a.performAll calls).created = a.created ++ calls.flatMap StoreCall.created := by
  induction calls generalizing a s with
  | nil => exact ⟨h, (List.append_nil _).symm⟩
  | cons call calls ih =>
    rw [List.flatMap_cons, ← List.append_assoc] at fresh ⊢
    have hnext := h.perform (List.Nodup.of_append_left fresh)
    rw [← created_perform] at fresh ⊢
    exact ih hnext fresh

end Represents

end Archive

/-! ### All calls -/

/-- After any sequence of calls in which every created transaction has an id of its own, the store
shows what its archive says. A call is refused only for want of the record that it means to change,
and then changes nothing; all others succeed. Several transactions are replaced together, the last
version for a repeated id, or none of them is. No call changes a table other than its own. A table
with an index that goes through the same calls has the rows of the store and finds the same
transactions, and its index gives every id the place in the order of creation. -/
theorem StoreCall.performAll_refines {calls : List StoreCall}
    (fresh : (calls.flatMap created).Nodup) :
    let s := performAll calls Store.empty
    let a := Archive.empty.performAll calls
    let t := IndexedTable.empty.performAll calls
    a.created = calls.flatMap created ∧
    a.Shows s ∧
    (∀ (call : StoreCall) m, call.missing? a = some m →
      call.perform s = (.error (.notFound m), s)) ∧
    (∀ call : StoreCall, call.missing? a = none → (call.perform s).1 = .ok ()) ∧
    (∀ txs, (∃ tx ∈ txs, tx.id ∉ a.created) → ∃ tx ∈ txs, tx.id ∉ a.created ∧
      perform (.transactions (.updateAll txs)) s =
        (.error (.notFound (.transaction tx.id)), s)) ∧
    (∀ txs, (∀ tx ∈ txs, tx.id ∈ a.created) → ∃ s',
      perform (.transactions (.updateAll txs)) s = (.ok (), s') ∧
      s'.transactions.map (·.id) = a.created ∧
      ∀ id, s'.getTransaction id =
        orMissing (.transaction id) ((lastWithId? id txs).or (a.latest? id))) ∧
    (∀ (call : StoreCall) other, other ≠ call.table → other.Same s (call.perform s).2) ∧
    (t.rows = s.transactions ∧
      (∀ id, t.get id = s.getTransaction id) ∧
      ∀ id i, t.places.get? id = some i ↔ a.created[i]? = some id) := by
  intro s a t
  obtain ⟨hrep, hcreated⟩ :=
    Archive.represents_empty.performAll calls (by simpa [Archive.empty] using fresh)
  have hmirrors := IndexedTable.mirrors_empty.performAll calls
  refine ⟨hcreated, hrep.shows, fun call m => hrep.perform_of_missing, fun call hm => ?_,
    fun txs hunknown => ?_, fun txs known => ?_, fun call => call.same_perform _,
    hmirrors.rows, hmirrors.get_eq, fun id i => ?_⟩
  · obtain ⟨s', hs', -⟩ := hrep.exists_perform hm
    exact congrArg Prod.fst hs'
  · have hsome : (txs.find? fun tx => decide (tx.id ∉ a.created)).isSome = true := by
      simpa using hunknown
    obtain ⟨tx, htx⟩ := Option.isSome_iff_exists.mp hsome
    refine ⟨tx, List.mem_of_find?_eq_some htx, by simpa using List.find?_some htx, ?_⟩
    exact hrep.perform_of_missing (congrArg (Option.map _) htx)
  · have hnone : missing? a (.transactions (.updateAll txs)) = none := by
      rw [missing?, Option.map_eq_none_iff]
      simpa using known
    obtain ⟨s', hs', hwrite⟩ := hrep.exists_perform hnone
    have hrep' := hwrite (by simpa [created, TransactionCall.created] using hrep.distinct)
    refine ⟨s', hs', hrep'.ids, fun id => ?_⟩
    rw [hrep'.getTransaction_eq, Archive.latest?, Archive.write, lastWithId?_append]
    rfl
  · rw [hmirrors.get?_eq_some_iff (hrep.ids ▸ hrep.distinct), hrep.ids]

/-- A transaction with a hash. -/
def hashedTransaction (id : Nat) (hash : Option String) : Transaction :=
  { Transaction.new ⟨id⟩ ⟨0⟩ ⟨0⟩ [] .epoch with hash }

/-- Two transactions are created and given hashes, the first one twice since it occurs again. The
last call changes nothing since one of its transactions was never created. -/
def hashingCalls : List StoreCall :=
  [.transactions (.createAll [hashedTransaction 0 none, hashedTransaction 1 none]),
    .transactions (.updateAll [hashedTransaction 0 (some "0x1"), hashedTransaction 1 (some "0x1"),
      hashedTransaction 0 (some "0x2")]),
    .transactions (.updateAll [hashedTransaction 0 (some "0x1"), hashedTransaction 2 none])]

/-- The last version of each of the two transactions is found, by id, by place and by hash. -/
theorem hashingCalls_refine :
    (hashingCalls.flatMap StoreCall.created).Nodup ∧
    (StoreCall.performAll hashingCalls Store.empty).getTransaction ⟨0⟩ =
      .ok (hashedTransaction 0 (some "0x2")) ∧
    (IndexedTable.empty.performAll hashingCalls).get ⟨0⟩ =
      .ok (hashedTransaction 0 (some "0x2")) ∧
    (StoreCall.performAll hashingCalls Store.empty).transactionWithHash "0x1" =
      .ok (hashedTransaction 1 (some "0x1")) := by
  have fresh : (hashingCalls.flatMap StoreCall.created).Nodup := by decide
  obtain ⟨-, hshows, -, -, -, -, -, -, hget, -⟩ := StoreCall.performAll_refines fresh
  have hfound := hshows.transaction ⟨0⟩
  exact ⟨fresh, hfound, (hget ⟨0⟩).trans hfound, hshows.withHash "0x1"⟩

end ContractFuzz
