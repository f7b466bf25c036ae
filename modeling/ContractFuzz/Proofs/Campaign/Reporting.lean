import ContractFuzz.Proofs.Campaign.Aggregate
import ContractFuzz.Proofs.Campaign.Progress
import ContractFuzz.Proofs.Campaign.ServiceCalls
import ContractFuzz.Proofs.Replay
/-!
# Reports that are delivered

A report says twice what a task has reached: its totals come from the aggregate that was maintained
while the task ran, its series from a replay of the transactions. Both agree in every report that is
ever delivered.

## Main definitions

* `TaskReport.IsTimeline` : one sample for each transaction, in order of time.
* `TaskReport.Consistent` : a report that agrees with itself.

## Main results

* `TaskReport.consistent_build` : summaries are consistent if the aggregate of the task is exact.
* `Campaign.Reachable.reports_consistent` : all delivered reports are.
-/

namespace ContractFuzz

namespace TaskReport

/-- Samples of a series: one for each reported transaction, in order of time. -/
structure IsTimeline {α : Type} (samples : List (Sample α)) (txs : List TransactionReport) :
    Prop where
  times : (samples.map (·.time)).Perm (txs.map (·.timestamp))
  ordered : (samples.map (·.time)).Pairwise (· ≤ ·)

/-- A report on a contract with the graph `g` agrees with itself. -/
structure Consistent (g : ControlFlowGraph) (r : TaskReport) : Prop where
  coverageByTime : IsTimeline r.coverageByTime r.transactions
  minDistanceByTime : IsTimeline r.minDistanceByTime r.transactions
  /-- The distance that is left does not grow. -/
  closer : (r.minDistanceByTime.map (·.value)).Pairwise (· ≥ ·)
  coverage : r.transactions ≠ [] →
    r.coverageByTime.getLast?.map (·.value) = some r.coverage
  minDistance : r.transactions ≠ [] →
    r.minDistanceByTime.getLast?.map (·.value) = some r.minDistance
  /-- Without transactions nothing was executed. -/
  unexecuted : r.transactions = [] →
    r.coverage = g.coverage .empty ∧ r.minDistance = unreachable
  weaknesses : ∀ w, w ∈ r.weaknesses ↔ ∃ tx ∈ r.transactions, w ∈ tx.weaknesses

theorem isTimeline_replay {α : Type} (measure : PcSet → α) (txs : List Transaction) :
    IsTimeline (replay measure txs) (txs.map .ofTransaction) where
  times := by
    rw [map_time_replay, List.map_map]
    exact (perm_inTimeOrder txs).map _
  ordered := by
    rw [map_time_replay]
    exact pairwise_inTimeOrder txs

/-- The summary of a task is consistent if the aggregate of the task is what its transactions
executed. -/
theorem consistent_build {task : Task} {contract : Contract} {txs : List Transaction}
    (bounded : contract.distances.Bounded) (exact : task.executed = executedAfter .empty txs) :
    (build task contract txs).Consistent contract.knownGraph where
  coverageByTime := isTimeline_replay _ txs
  minDistanceByTime := isTimeline_replay _ txs
  closer := pairwise_replay (contract.knownGraph.minDistance contract.distances) (R := (· ≥ ·))
    (fun hsub => ControlFlowGraph.minDistance_antitone bounded hsub) txs
  coverage hne := by
    change (replay contract.knownGraph.coverage txs).getLast?.map (·.value) =
      some (contract.knownGraph.coverage task.executed)
    rw [exact, getLast?_replay _ fun hnil => hne (List.map_eq_nil_iff.mpr hnil)]
  minDistance hne := by
    change (replay (contract.knownGraph.minDistance contract.distances) txs).getLast?.map
      (·.value) = some (contract.knownGraph.minDistance contract.distances task.executed)
    rw [exact, getLast?_replay _ fun hnil => hne (List.map_eq_nil_iff.mpr hnil)]
  unexecuted hnil := by
    obtain rfl : txs = [] := List.map_eq_nil_iff.mp hnil
    change contract.knownGraph.coverage task.executed = _ ∧
      contract.knownGraph.minDistance contract.distances task.executed = _
    rw [exact]
    exact ⟨rfl, ControlFlowGraph.minDistance_empty⟩
  weaknesses w := by
    change w ∈ SortedSet.ofList (txs.flatMap (·.weaknesses.toList)) ↔
      ∃ tx ∈ txs.map TransactionReport.ofTransaction, w ∈ tx.weaknesses
    simp only [SortedSet.mem_ofList, List.mem_flatMap, List.mem_map, exists_exists_and_eq_and]
    rfl

end TaskReport

/-! ### Reachable states -/

/-- The aggregate of a task is what its transactions executed, one after the other. -/
theorem Store.Aggregated.executed_eq_executedAfter {s : Store} (h : s.Aggregated) {id : TaskId}
    {t : Task} (ht : s.tasks.get? id = some t) :
    t.executed = executedAfter .empty (s.transactionsOf id) := by
  refine SortedSet.ext_mem fun pc => ?_
  rw [← executedFor_eq, mem_executedFor]
  exact h.aggregate ht pc

/-- Every report that is delivered from a reachable state, by any operation, is the summary of a
stored task with its contract and its transactions, and agrees with itself. Contracts come with
distances of thirty-two bits. -/
theorem Campaign.Reachable.reports_consistent {ω : Type} {e : Engine ω} {c : Campaign ω}
    (h : Reachable e (fun _ contract => contract.distances.Bounded) c) {op : Operation ω}
    {r : TaskReport} (delivered : r ∈ op.reports e c) :
    ∃ task contract, c.store.getTask task.id = .ok task ∧
      c.store.contractOfTask task.id = .ok contract ∧
      r = .build task contract (c.store.transactionsOf task.id) ∧
      r.Consistent contract.knownGraph := by
  have measured : c.ledger.store.Measured :=
    h.invariant (J := fun g => g.store.Measured) .empty fun sound hm move => move.measured sound hm
  obtain ⟨id, task, contract, htask, hcontract, rfl⟩ :=
    op.isDue_of_mem_serviceCalls e c (Operation.mem_reports.mp delivered)
  obtain ⟨hget, -⟩ := h.sound.contractOfTask_eq_ok_iff.mp hcontract
  have htask' := Store.getTask_eq_ok_iff.mp htask
  obtain rfl : task.id = id := h.sound.taskNamed htask'
  exact ⟨task, contract, htask, hcontract, rfl,
    TaskReport.consistent_build (measured.bounded hget)
      (h.aggregated.executed_eq_executedAfter htask')⟩

/-- The short campaign once the time of its task is over. -/
def finishedSwitchCampaign : Campaign World :=
  (Operation.check (.ofMillis 60000)).perform switchEngine switchCampaign

theorem reports_consistent_switchCampaign :
    ∃ r ∈ (Operation.deliver .reporter).reports switchEngine finishedSwitchCampaign,
      r.transactions.length = 3 ∧ r.minDistanceByTime.getLast?.map (·.value) = some 0 ∧
      ∃ contract : Contract, r.Consistent contract.knownGraph := by
  have reached : Campaign.Reachable switchEngine (fun _ contract => contract.distances.Bounded)
      finishedSwitchCampaign :=
    (reachable_switchCampaign DistanceMap.bounded_empty).step (.check (.ofMillis 60000)) trivial
  have sent : ((Operation.deliver .reporter).reports switchEngine finishedSwitchCampaign).any
      (fun r => r.transactions.length = 3 ∧ r.minDistance = 0) = true := by decide +kernel
  obtain ⟨r, hr, hreport⟩ := List.any_eq_true.mp sent
  obtain ⟨hlength, hzero⟩ := of_decide_eq_true hreport
  obtain ⟨_, contract, -, -, -, consistent⟩ := reached.reports_consistent hr
  have hlast := consistent.minDistance fun hnil => by rw [hnil] at hlength; cases hlength
  exact ⟨r, hr, hlength, hzero ▸ hlast, contract, consistent⟩

end ContractFuzz
