import ContractFuzz.Proofs.Campaign.Reachable
import ContractFuzz.Proofs.Replay
/-!
# The aggregate of a task

All that was executed for a task is what its transactions executed: nothing is missing and nothing
is added, however often, however late and in whatever order the node reports.

## Main definitions

* `Store.executedFor` : what the transactions of a task executed.
* `Store.Aggregated` : the invariant.

## Main results

* `Campaign.Reachable.executed_eq` : aggregates are exact in every reachable state.
-/

namespace ContractFuzz

/-- What the transactions of a task executed, all together. -/
def Store.executedFor (task : TaskId) (s : Store) : PcSet :=
  (s.transactionsOf task).foldl (fun all tx => all.union tx.executed) .empty

theorem Store.executedFor_eq (task : TaskId) (s : Store) :
    s.executedFor task = executedAfter .empty (s.transactionsOf task) := rfl

theorem Store.mem_executedFor {task : TaskId} {s : Store} {pc : Pc} :
    pc ∈ s.executedFor task ↔ ∃ tx ∈ s.transactions, tx.task = task ∧ pc ∈ tx.executed := by
  simp [executedFor_eq, mem_executedAfter, mem_transactionsOf, and_assoc]

namespace Store

/-- Every aggregate is what the task's transactions executed; only finished ones executed
anything. -/
structure Aggregated (s : Store) : Prop where
  aggregate : ∀ {id t}, s.tasks.get? id = some t → ∀ pc,
    pc ∈ t.executed ↔ ∃ tx ∈ s.transactions, tx.task = id ∧ pc ∈ tx.executed
  unrecorded : ∀ tx ∈ s.transactions, tx.status ≠ .done → tx.executed = .empty

namespace Aggregated

variable {s : Store}

theorem empty : Aggregated .empty where
  aggregate ht := by cases ht
  unrecorded _ htx := by cases htx

/-- A task may be replaced by a version with the same aggregate. -/
theorem createTask (h : s.Aggregated) {old new : Task} (hold : s.getTask new.id = .ok old)
    (same : new.executed = old.executed) : (s.createTask new).Aggregated where
  aggregate ht pc := by
    obtain ⟨t', ht', heq⟩ := exists_of_createTask hold same ht
    exact heq ▸ h.aggregate ht' pc
  unrecorded := h.unrecorded

/-- Transactions that executed nothing may be added. -/
theorem append (h : s.Aggregated) {txs : List Transaction}
    (quiet : ∀ tx ∈ txs, tx.executed = .empty) :
    Aggregated { s with transactions := s.transactions ++ txs } where
  aggregate {id t} ht pc := by
    rw [h.aggregate ht pc]
    constructor
    · rintro ⟨tx, htx, hboth⟩
      exact ⟨tx, List.mem_append_left _ htx, hboth⟩
    · rintro ⟨tx, htx, htask, hpc⟩
      rcases List.mem_append.mp htx with htx | htx
      · exact ⟨tx, htx, htask, hpc⟩
      · rw [quiet tx htx] at hpc
        exact absurd hpc (SortedSet.not_mem_empty pc)
  unrecorded tx htx hopen := by
    rcases List.mem_append.mp htx with htx | htx
    · exact h.unrecorded tx htx hopen
    · exact quiet tx htx

/-- Transactions may be replaced by versions that agree with them. -/
theorem versions (h : s.Aggregated) {txs : List Transaction}
    (agree : List.Forall₂ Transaction.Agrees s.transactions txs) :
    Aggregated { s with transactions := txs } where
  aggregate {id t} ht pc := by
    rw [h.aggregate ht pc]
    constructor
    · rintro ⟨tx, htx, htask, hpc⟩
      obtain ⟨tx', htx', hagree⟩ := (exists_mem_of_forall₂ agree).1 tx htx
      exact ⟨tx', htx', hagree.task.trans htask, hagree.executed ▸ hpc⟩
    · rintro ⟨tx', htx', htask, hpc⟩
      obtain ⟨tx, htx, hagree⟩ := (exists_mem_of_forall₂ agree).2 tx' htx'
      exact ⟨tx, htx, hagree.task.symm.trans htask, hagree.executed ▸ hpc⟩
  unrecorded tx' htx' hopen := by
    obtain ⟨tx, htx, hagree⟩ := (exists_mem_of_forall₂ agree).2 tx' htx'
    exact hagree.executed.trans (h.unrecorded tx htx (hagree.status hopen))

/-- What one transaction executed may be recorded, once, together with the aggregate of its task. -/
theorem record (h : s.Aggregated) {before after : List Transaction} {tx new : Transaction}
    {task : Task} {executed : PcSet} (split : s.transactions = before ++ tx :: after)
    (unrecorded : tx.status ≠ .done) (htask : s.getTask tx.task = .ok task)
    (hsame : new.task = tx.task) (hexecuted : new.executed = executed)
    (hdone : new.status = .done) : Aggregated { s with
      transactions := before ++ new :: after
      tasks := s.tasks.insert tx.task (task.mergeExecuted executed) } := by
  -- Before, the transaction had executed nothing.
  have hempty : ∀ pc, pc ∉ tx.executed := by
    intro pc
    rw [h.unrecorded tx (split ▸ List.mem_append_right _ List.mem_cons_self) unrecorded]
    exact SortedSet.not_mem_empty pc
  refine ⟨fun {id t} ht pc => ?_, ?_⟩
  · change pc ∈ t.executed ↔ ∃ tx' ∈ before ++ new :: after, tx'.task = id ∧ pc ∈ tx'.executed
    have others : (∃ tx' ∈ s.transactions, tx'.task = id ∧ pc ∈ tx'.executed) ↔
        ∃ tx' ∈ before ++ after, tx'.task = id ∧ pc ∈ tx'.executed := by
      rw [split, exists_mem_middle_iff, or_iff_right fun hboth => hempty pc hboth.2]
    rw [exists_mem_middle_iff, ← others, hsame, hexecuted]
    rcases SortedMap.get?_insert_eq_some_iff.mp ht with ⟨rfl, rfl⟩ | ⟨hne, ht⟩
    · change pc ∈ task.executed.union executed ↔ _
      rw [SortedSet.mem_union, h.aggregate (getTask_eq_ok_iff.mp htask) pc, or_comm]
      simp
    · rw [h.aggregate ht pc, or_iff_right fun hboth => hne hboth.1.symm]
  · have hrest := h.unrecorded
    rw [split] at hrest
    exact forall_mem_middle_iff.mpr
      ⟨fun hopen => absurd hdone hopen, (forall_mem_middle_iff.mp hrest).2⟩

end Aggregated

end Store

/-! ### Reachable states -/

variable {config : Config} {Accepted : Task → Contract → Prop} {g g' : Ledger}

/-- A registered task has no transactions yet. -/
theorem Ledger.aggregated_register (h : g.Sound) (ha : g.store.Aggregated) {task : Task}
    {contract : Contract} {definition : AbiDefinition} (new : g.Registrable task contract) :
    (g.register task contract definition).store.Aggregated where
  aggregate {id t} ht pc := by
    rcases SortedMap.get?_insert_eq_some_iff.mp ht with ⟨rfl, rfl⟩ | ⟨-, ht⟩
    · rw [new.unexecuted]
      refine ⟨fun hpc => absurd hpc (SortedSet.not_mem_empty pc), ?_⟩
      rintro ⟨tx, htx, htask, -⟩
      obtain ⟨t', ht'⟩ := h.taskOfTransaction tx htx
      rw [htask, new.newTask] at ht'
      cases ht'
    · exact ha.aggregate ht pc
  unrecorded := ha.unrecorded

/-- Every move keeps aggregates exact. -/
theorem Ledger.Move.aggregated (h : g.Sound) (ha : g.store.Aggregated)
    (move : Move config Accepted g g') : g'.store.Aggregated := by
  cases move with
  | register new accepted hdefinition => exact aggregated_register h ha new
  | start now htask created => exact ha.createTask htask rfl
  | finish htask running expired => exact ha.createTask htask rfl
  | request hcontract analyzed => exact ha
  | expire task cutoff => exact ha.versions (agrees_expire _ _)
  | deploy now hash started htask hcontract hconstructor hdefinition drawn =>
    refine ha.append fun tx htx => ?_
    rw [List.mem_singleton.mp htx]
    rfl
  | enrich hcontract hgraph last htask hashed => exact ⟨ha.aggregate, ha.unrecorded⟩
  | submit clock outcome requested htask running hcontract hdefinition candidate hmethod drawn =>
    exact ha.append fun tx htx => (unexecuted_of_mem_batch htx).2.1
  | record executed split hashed first unrecorded htask hcontract =>
    exact ha.record split unrecorded htask rfl rfl rfl
  | weaken new split hashed first => exact ha.versions (split ▸ agrees_weaken _ _ _ _)

/-- Aggregates are exact in every reachable state, whatever tasks are accepted. -/
theorem Campaign.Reachable.aggregated {ω : Type} {e : Engine ω} {c : Campaign ω}
    (h : Reachable e Accepted c) : c.store.Aggregated :=
  h.invariant (J := fun g => g.store.Aggregated) .empty fun sound aggregated move =>
    move.aggregated sound aggregated

/-- In every reachable state, the aggregate of a task is exactly what its transactions executed. -/
theorem Campaign.Reachable.executed_eq {ω : Type} {e : Engine ω} {c : Campaign ω}
    (h : Reachable e (fun _ _ => True) c) {id : TaskId} {t : Task}
    (ht : c.store.getTask id = .ok t) : t.executed = c.store.executedFor id := by
  have ha : c.ledger.store.Aggregated :=
    h.invariant (J := fun g => g.store.Aggregated) Store.Aggregated.empty
      fun sound ha move => move.aggregated sound ha
  refine SortedSet.ext_mem fun pc => ?_
  rw [Store.mem_executedFor]
  exact ha.aggregate (Store.getTask_eq_ok_iff.mp ht) pc

theorem executed_switchCampaign :
    ∃ t, switchCampaign.store.getTask ⟨0⟩ = .ok t ∧ t.executed.toList = [0, 10] ∧
      t.executed = switchCampaign.store.executedFor ⟨0⟩ := by
  obtain ⟨t, ht, hexecuted⟩ := exists_of_toOption (x := switchCampaign.store.getTask ⟨0⟩)
    (f := fun t => t.executed.toList) (b := [0, 10]) (by decide +kernel)
  exact ⟨t, ht, hexecuted, (reachable_switchCampaign trivial).executed_eq ht⟩

end ContractFuzz
