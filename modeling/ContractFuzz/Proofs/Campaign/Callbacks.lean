import ContractFuzz.Proofs.Campaign.Recording
/-!
# Callbacks that a task waits for

Callbacks about different transactions of a task, recorded one after the other: what they make of
each transaction, and what the task still waits for once some of them have arrived.

## Main definitions

* `Callback`, `recordEach` : callbacks, and their recording one after the other.
* `Store.Awaits`, `Store.waitsOnlyFor` : callbacks that a task waits for, and for nothing else.
* `Transaction.withoutGains` : a transaction without its share of the progress.
* `Transaction.Follows` : what callbacks make of a transaction.

## Main results

* `Transaction.Follows.append` : callbacks one after the other.
* `Transaction.Follows.eq_of_perm` : in another order, they make the same up to gains.
* `Store.waitsOnlyFor_append`, `Store.Awaits.right` : what is waited for after the first callbacks.
-/

namespace ContractFuzz

open Activity

/-! ### Callbacks -/

/-- What the node reports about the execution of the transaction with a hash. -/
structure Callback where
  /-- The hash of the transaction. -/
  hash : String
  /-- The instructions that it ran through. -/
  executed : PcSet

/-- The instructions that some callbacks report. -/
def allExecuted (calls : List Callback) : PcSet :=
  calls.foldl (fun all call => all.union call.executed) .empty

/-- Record the executions that some callbacks report, one after the other. -/
def recordEach {ω : Type} (e : Engine ω) : List Callback → Activity ω (List Transaction)
  | [] => return []
  | call :: rest => do
    let tx ← recordExecution e call.hash call.executed
    return tx :: (← recordEach e rest)

/-- The transaction without what it has gained. -/
def Transaction.withoutGains (tx : Transaction) : Transaction :=
  { tx with coverageGain := 0, distanceGain := 0 }

namespace Store

/-- A task waits for some callbacks: their hashes differ, and each is that of one transaction only,
a running one of the task. -/
structure Awaits (s : Store) (id : TaskId) (calls : List Callback) : Prop where
  distinct : (calls.map (·.hash)).Nodup
  awaited : ∀ call ∈ calls, ∃ tx ∈ s.transactions, tx.hash = some call.hash ∧ tx.task = id ∧
    tx.status = .running ∧ ∀ tx' ∈ s.transactions, tx'.hash = some call.hash → tx' = tx

/-- Whether a task waits for nothing but some callbacks. -/
def waitsOnlyFor (id : TaskId) (calls : List Callback) (s : Store) : Bool :=
  (s.transactionsOf id).all fun tx =>
    calls.any (fun call => tx.hash == some call.hash) || !tx.isPending

end Store

/-! ### What callbacks report in total -/

theorem mem_allExecuted {calls : List Callback} {pc : Pc} :
    pc ∈ allExecuted calls ↔ ∃ call ∈ calls, pc ∈ call.executed := by
  have hall : ∀ all : PcSet, pc ∈ calls.foldl (fun all call => all.union call.executed) all ↔
      pc ∈ all ∨ ∃ call ∈ calls, pc ∈ call.executed := by
    induction calls with
    | nil => simp
    | cons call rest ih =>
      intro all
      simp only [List.foldl_cons, ih, SortedSet.mem_union, List.mem_cons, exists_eq_or_imp,
        or_assoc]
  rw [allExecuted, hall]
  simp

theorem allExecuted_append (calls calls' : List Callback) :
    allExecuted (calls ++ calls') = (allExecuted calls).union (allExecuted calls') := by
  refine SortedSet.ext_mem fun pc => ?_
  simp only [SortedSet.mem_union, mem_allExecuted, List.mem_append, or_and_right, exists_or]

theorem allExecuted_singleton (call : Callback) : allExecuted [call] = call.executed := by
  refine SortedSet.ext_mem fun pc => ?_
  simp [mem_allExecuted]

theorem allExecuted_eq_of_perm {calls calls' : List Callback} (h : calls.Perm calls') :
    allExecuted calls = allExecuted calls' := by
  refine SortedSet.ext_mem fun pc => ?_
  simp only [mem_allExecuted, h.mem_iff]

theorem PcSet.union_assoc (a b c : PcSet) : (a.union b).union c = a.union (b.union c) := by
  refine SortedSet.ext_mem fun pc => ?_
  simp only [SortedSet.mem_union, or_assoc]

/-! ### What happens to transactions -/

namespace Transaction

/-- What some callbacks make of a transaction: one that is reported is recorded, with whatever
gains, and any other one stays as it is. -/
structure Follows (critical : List String) (k : Contract) (calls : List Callback)
    (old new : Transaction) : Prop where
  reported : ∀ call ∈ calls, old.hash = some call.hash →
    new.withoutGains = (old.recorded critical k .empty call.executed).withoutGains
  unreported : (∀ call ∈ calls, old.hash ≠ some call.hash) → new = old

variable {critical : List String} {k : Contract} {calls calls' : List Callback}
  {a b b' d : Transaction}

theorem follows_nil (tx : Transaction) : Follows critical k [] tx tx :=
  ⟨fun _ h => absurd h List.not_mem_nil, fun _ => rfl⟩

/-- Except for the gains, it makes no difference what was executed before. -/
theorem withoutGains_recorded (tx : Transaction) (before executed : PcSet) :
    (tx.recorded critical k before executed).withoutGains =
      (tx.recorded critical k .empty executed).withoutGains := by
  simp only [withoutGains, recorded]

/-- A transaction that is recorded, whatever was executed before. -/
theorem follows_recorded {call : Callback} (hashed : a.hash = some call.hash) (before : PcSet) :
    Follows critical k [call] a (a.recorded critical k before call.executed) where
  reported call' h _ := by
    rw [List.mem_singleton.mp h]
    exact withoutGains_recorded a before call.executed
  unreported h := absurd hashed (h call List.mem_cons_self)

theorem follows_of_ne {call : Callback} (h : a.hash ≠ some call.hash) :
    Follows critical k [call] a a where
  reported _ h' hashed := absurd (List.mem_singleton.mp h' ▸ hashed) h
  unreported _ := rfl

namespace Follows

/-- A transaction is either reported by some callback or by none. -/
theorem reported_or (tx : Transaction) (calls : List Callback) :
    (∃ call ∈ calls, tx.hash = some call.hash) ∨ ∀ call ∈ calls, tx.hash ≠ some call.hash := by
  by_cases h : ∃ call ∈ calls, tx.hash = some call.hash
  · exact .inl h
  · exact .inr fun call hcall hashed => h ⟨call, hcall, hashed⟩

theorem hash (h : Follows critical k calls a b) : b.hash = a.hash := by
  rcases reported_or a calls with ⟨call, hcall, hashed⟩ | none
  · exact congrArg (·.hash) (h.reported call hcall hashed)
  · rw [h.unreported none]

theorem task (h : Follows critical k calls a b) : b.task = a.task := by
  rcases reported_or a calls with ⟨call, hcall, hashed⟩ | none
  · exact congrArg (·.task) (h.reported call hcall hashed)
  · rw [h.unreported none]

/-- What is reported is not waited for any more. -/
theorem not_isPending (h : Follows critical k calls a b) {call : Callback} (hcall : call ∈ calls)
    (hashed : a.hash = some call.hash) : b.isPending = false :=
  congrArg (fun tx : Transaction => tx.isPending) (h.reported call hcall hashed)

/-- Callbacks about different transactions, one after the other. -/
theorem append (h : Follows critical k calls a b) (h' : Follows critical k calls' b d)
    (apart : ∀ call ∈ calls, ∀ call' ∈ calls', call.hash ≠ call'.hash) :
    Follows critical k (calls ++ calls') a d where
  reported call hcall hashed := by
    rcases List.mem_append.mp hcall with hcall | hcall
    · have hsame : d = b := h'.unreported fun call' hcall' hashed' =>
        apart call hcall call' hcall' (Option.some.inj
          (hashed.symm.trans (h.hash.symm.trans hashed')))
      exact hsame ▸ h.reported call hcall hashed
    · have hsame : b = a := h.unreported fun call' hcall' hashed' =>
        apart call' hcall' call hcall (Option.some.inj (hashed'.symm.trans hashed))
      exact hsame ▸ h'.reported call hcall (h.hash.trans hashed)
  unreported h₂ := by
    have hsame : b = a := h.unreported fun call hcall => h₂ call (List.mem_append_left _ hcall)
    refine (h'.unreported fun call hcall => ?_).trans hsame
    exact h.hash ▸ h₂ call (List.mem_append_right _ hcall)

/-- The same callbacks in another order make the same of a transaction, up to its gains. -/
theorem eq_of_perm (h : Follows critical k calls a b) (h' : Follows critical k calls' a b')
    (perm : calls.Perm calls') : b.withoutGains = b'.withoutGains ∧
      ((∀ call ∈ calls, b.hash ≠ some call.hash) → b = b') := by
  rcases reported_or a calls with ⟨call, hcall, hashed⟩ | none
  · refine ⟨(h.reported call hcall hashed).trans
      (h'.reported call (perm.mem_iff.mp hcall) hashed).symm, fun unreported => ?_⟩
    exact absurd (h.hash.trans hashed) (unreported call hcall)
  · have hsame := h.unreported none
    have hsame' := h'.unreported fun call hcall => none call (perm.mem_iff.mpr hcall)
    exact ⟨by rw [hsame, hsame'], fun _ => hsame.trans hsame'.symm⟩

end Follows

end Transaction

/-! ### What is still waited for -/

namespace Store

variable {s s' : Store} {id : TaskId} {calls calls' : List Callback} {critical : List String}
  {k : Contract}

theorem waitsOnlyFor_iff : s.waitsOnlyFor id calls = true ↔ ∀ tx ∈ s.transactions, tx.task = id →
    (∃ call ∈ calls, tx.hash = some call.hash) ∨ tx.isPending = false := by
  simp only [waitsOnlyFor, List.all_eq_true, mem_transactionsOf, and_imp, Bool.or_eq_true,
    List.any_eq_true, beq_iff_eq, Bool.not_eq_true']

/-- Without a pending transaction, nothing is waited for. -/
theorem hasPending_eq_not : s.hasPending id = !s.waitsOnlyFor id [] := by
  simp [hasPending, waitsOnlyFor, List.all_eq_not_any_not]

/-- A task that waits for nothing but some callbacks waits for the last ones once the first ones
have arrived. -/
theorem waitsOnlyFor_append
    (h : List.Forall₂ (Transaction.Follows critical k calls) s.transactions s'.transactions) :
    s'.waitsOnlyFor id calls' = s.waitsOnlyFor id (calls ++ calls') := by
  rw [Bool.eq_iff_iff, waitsOnlyFor_iff, waitsOnlyFor_iff]
  obtain ⟨forward, backward⟩ := exists_mem_of_forall₂ h
  constructor
  · intro all tx htx htask
    obtain ⟨tx', htx', follows⟩ := forward tx htx
    rcases Transaction.Follows.reported_or tx calls with ⟨call, hcall, hashed⟩ | none
    · exact .inl ⟨call, List.mem_append_left _ hcall, hashed⟩
    · rcases all tx' htx' (follows.task.trans htask) with ⟨call, hcall, hashed⟩ | settled
      · exact .inl ⟨call, List.mem_append_right _ hcall, follows.hash.symm.trans hashed⟩
      · exact .inr (follows.unreported none ▸ settled)
  · intro all tx' htx' htask
    obtain ⟨tx, htx, follows⟩ := backward tx' htx'
    rcases Transaction.Follows.reported_or tx calls with ⟨call, hcall, hashed⟩ | none
    · exact .inr (follows.not_isPending hcall hashed)
    · rcases all tx htx (follows.task.symm.trans htask) with ⟨call, hcall, hashed⟩ | settled
      · rcases List.mem_append.mp hcall with hcall | hcall
        · exact absurd hashed (none call hcall)
        · exact .inl ⟨call, hcall, follows.hash.trans hashed⟩
      · exact .inr (follows.unreported none ▸ settled)

namespace Awaits

/-- Callbacks that come first have other hashes than those that follow. -/
theorem apart (h : s.Awaits id (calls ++ calls')) :
    ∀ call ∈ calls, ∀ call' ∈ calls', call.hash ≠ call'.hash := by
  intro call hcall call' hcall'
  have distinct := h.distinct
  rw [List.map_append] at distinct
  exact (List.nodup_append.mp distinct).2.2 _ (List.mem_map_of_mem hcall) _
    (List.mem_map_of_mem hcall')

theorem left (h : s.Awaits id (calls ++ calls')) : s.Awaits id calls where
  distinct := by
    have distinct := h.distinct
    rw [List.map_append] at distinct
    exact (List.nodup_append.mp distinct).1
  awaited call hcall := h.awaited call (List.mem_append_left _ hcall)

/-- Once the first callbacks have arrived, the last ones are still waited for. -/
theorem right (h : s.Awaits id (calls ++ calls'))
    (follows : List.Forall₂ (Transaction.Follows critical k calls) s.transactions
      s'.transactions) : s'.Awaits id calls' where
  distinct := by
    have distinct := h.distinct
    rw [List.map_append] at distinct
    exact (List.nodup_append.mp distinct).2.1
  awaited call' hcall' := by
    obtain ⟨forward, backward⟩ := exists_mem_of_forall₂ follows
    obtain ⟨tx, htx, hashed, htask, running, unique⟩ :=
      h.awaited call' (List.mem_append_right _ hcall')
    have none : ∀ call ∈ calls, tx.hash ≠ some call.hash := fun call hcall hashed' =>
      h.apart call hcall call' hcall' (Option.some.inj (hashed'.symm.trans hashed))
    obtain ⟨tx', htx', hfollows⟩ := forward tx htx
    obtain rfl := hfollows.unreported none
    refine ⟨tx', htx', hashed, htask, running, fun new hnew hashed' => ?_⟩
    obtain ⟨old, hold, hfollows'⟩ := backward new hnew
    obtain rfl := unique old hold (hfollows'.hash.symm.trans hashed')
    exact hfollows'.unreported none

/-- As long as further callbacks are awaited, the task does not wait for the first ones only. -/
theorem waitsOnlyFor_eq_false (h : s.Awaits id (calls ++ calls')) (further : calls' ≠ []) :
    s.waitsOnlyFor id calls = false := by
  obtain ⟨call', hcall'⟩ := List.exists_mem_of_ne_nil _ further
  obtain ⟨tx, htx, hashed, htask, running, -⟩ := h.awaited call' (List.mem_append_right _ hcall')
  rw [← Bool.not_eq_true, waitsOnlyFor_iff]
  intro all
  rcases all tx htx htask with ⟨call, hcall, hashed'⟩ | settled
  · exact h.apart call hcall call' hcall' (Option.some.inj (hashed'.symm.trans hashed))
  · rw [Transaction.isPending, running] at settled
    cases settled

theorem perm (h : s.Awaits id calls) (perm : calls.Perm calls') : s.Awaits id calls' where
  distinct := ((perm.map _).nodup_iff).mp h.distinct
  awaited call hcall := h.awaited call (perm.mem_iff.mpr hcall)

end Awaits

end Store

end ContractFuzz
