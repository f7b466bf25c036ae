import ContractFuzz.Proofs.Campaign.LaterWith
import ContractFuzz.Proofs.Campaign.Progress
import ContractFuzz.Proofs.Graph.Scale
/-!
# The signals of recorded transactions

Transactions are ranked by signals that are parts of a whole. The wholes belong to the analysis of
the contract, the parts are recorded one by one, by other means. They fit in every state of a run in
which contracts are registered without an analysis: nothing is recorded before there is one, and an
analysis stays as it is.

## Main definitions

* `Contract.AnalyzedBy` : an analysis, with all that follows from its graph.
* `Transaction.Quiet`, `Transaction.Scaled` : transactions that achieved nothing, and those whose
  achievements are measured by a contract.
* `Ledger.Analyses`, `Ledger.Normalised` : the invariants.

## Main results

* `Contract.AnalyzedBy.scaled_recorded` : what is recorded is measured by the contract.
* `Campaign.LaterWith.signals_normalised` : signals are parts of their wholes in every state.
-/

namespace ContractFuzz

open ControlFlowGraph

/-! ### One contract, one transaction -/

/-- The contract has taken up an analysis: the graph of a decompiler's output, with the distances to
the critical instructions in it. -/
structure Contract.AnalyzedBy (k : Contract) (critical : List String) (graph : ControlFlowGraph) :
    Prop where
  taken : k.graph = some graph
  recovered : ∃ blocks, ofDecompiled blocks = .ok graph
  distances : k.distances = graph.distanceMap critical
  targetCount : k.targetCount = k.distances.size

/-- The transaction has achieved nothing. -/
structure Transaction.Quiet (tx : Transaction) : Prop where
  executed : tx.executed = .empty
  hits : tx.hits = 0
  distanceGain : tx.distanceGain = 0

/-- The achievements of the transaction are measured by the contract: it hit those targets that it
executed, which are among all of them, and it did not gain more hops than there are. -/
structure Transaction.Scaled (tx : Transaction) (k : Contract) : Prop where
  hits : tx.hits = (tx.executed.filter k.distances.contains).size
  targets : tx.hits ≤ k.targetCount
  hops : gainedHops tx.distanceGain ≤ k.distances.maxDistanceSum

/-- The two transactions belong to the same task and have achieved the same. -/
structure Transaction.SameSignals (old new : Transaction) : Prop where
  task : new.task = old.task
  executed : new.executed = old.executed
  hits : new.hits = old.hits
  distanceGain : new.distanceGain = old.distanceGain

theorem Transaction.SameSignals.refl (tx : Transaction) : tx.SameSignals tx := ⟨rfl, rfl, rfl, rfl⟩

theorem Transaction.Quiet.of_same {old new : Transaction} (h : old.Quiet)
    (same : old.SameSignals new) : new.Quiet :=
  ⟨same.executed.trans h.executed, same.hits.trans h.hits, same.distanceGain.trans h.distanceGain⟩

theorem Transaction.Scaled.of_same {old new : Transaction} {k : Contract} (h : old.Scaled k)
    (same : old.SameSignals new) : new.Scaled k where
  hits := by rw [same.hits, same.executed]; exact h.hits
  targets := same.hits ▸ h.targets
  hops := same.distanceGain ▸ h.hops

/-- What was achieved is measured by any contract, if it is nothing. -/
theorem Transaction.Quiet.scaled {tx : Transaction} (h : tx.Quiet) (k : Contract) :
    tx.Scaled k where
  hits := by rw [h.hits, h.executed]; rfl
  targets := by rw [h.hits]; exact Nat.zero_le _
  hops := by rw [h.distanceGain, gainedHops_zero]; exact Nat.zero_le _

/-- Signals of measured transactions are parts of a whole. -/
theorem Transaction.Scaled.normalises {tx : Transaction} {k : Contract} (h : tx.Scaled k)
    (signal : Signal) (policy : ScorePolicy) :
    (Ranking.ofContract k signal policy).Normalises tx where
  hits := ⟨tx.hits, h.targets, rfl⟩
  distance := ⟨gainedHops tx.distanceGain, h.hops, rfl⟩

namespace Contract

variable {k : Contract} {critical : List String} {graph : ControlFlowGraph}

namespace AnalyzedBy

theorem isAnalyzed (h : k.AnalyzedBy critical graph) : k.isAnalyzed = true := by
  rw [Contract.isAnalyzed, h.taken]
  rfl

theorem knownGraph (h : k.AnalyzedBy critical graph) : k.knownGraph = graph := by
  rw [Contract.knownGraph, h.taken]
  rfl

theorem wellFormed (h : k.AnalyzedBy critical graph) : graph.WellFormed := by
  obtain ⟨raw, accepted⟩ := h.recovered
  obtain ⟨blocks, -, built⟩ := exists_builtFrom accepted
  exact built.eq_ofBlocks ▸ wellFormed_ofBlocks blocks

/-- What is recorded of an execution is measured by the contract, whatever was executed before. -/
theorem scaled_recorded (h : k.AnalyzedBy critical graph) (tx : Transaction)
    (before executed : PcSet) : (tx.recorded critical k before executed).Scaled k := by
  have hits : (tx.recorded critical k before executed).hits =
      (executed.filter k.distances.contains).size := by
    rw [h.distances, ← filter_critical h.wellFormed]
    change (executed.filter fun pc => (k.knownGraph.opcode? pc).any (isCritical critical)).size = _
    rw [h.knownGraph]
  refine ⟨hits, ?_, ?_⟩
  · rw [hits, h.targetCount]
    exact SortedSet.size_le_size fun pc hpc => (SortedSet.mem_filter.mp hpc).2
  · have bounded : k.distances.Bounded := h.distances ▸ graph.bounded_distanceMap critical
    exact DistanceMap.gainedHops_delta_le (minDistance_le_worst bounded)

end AnalyzedBy

/-- A deployed contract has an analysis, be it its own or the one of the deployment. -/
theorem exists_analyzedBy_enriched (config : Config) (d : Deployment)
    (recovered : k.isAnalyzed = true ∨ ∃ blocks, ofDecompiled blocks = .ok graph)
    (h : k.isAnalyzed = true → ∃ graph, k.AnalyzedBy config.fuzzing.critical graph) :
    ∃ graph', (k.enriched config d graph).AnalyzedBy config.fuzzing.critical graph' := by
  cases analyzed : k.isAnalyzed with
  | true =>
    obtain ⟨graph', own⟩ := h analyzed
    rw [k.enriched_of_isAnalyzed config d graph analyzed]
    exact ⟨graph', own.taken, own.recovered, own.distances, own.targetCount⟩
  | false =>
    rw [k.enriched_of_not_isAnalyzed config d graph analyzed]
    exact ⟨graph, rfl, recovered.resolve_left (by simp [analyzed]), rfl, rfl⟩

end Contract

/-! ### The records -/

namespace Ledger

variable {config : Config} {critical : List String} {g g' : Ledger}

/-- Every analyzed contract has taken up an analysis with respect to the critical instructions. -/
def Analyses (critical : List String) (g : Ledger) : Prop :=
  ∀ {i k}, g.store.contracts.get? i = some k → k.isAnalyzed = true →
    ∃ graph, k.AnalyzedBy critical graph

/-- The transactions of every task are measured by its contract. Before the contract is analyzed,
they have achieved nothing. -/
structure Normalised (g : Ledger) : Prop where
  quiet : ∀ {i k}, g.store.contracts.get? i = some k → k.isAnalyzed = false →
    ∀ tx ∈ g.store.transactions, tx.task = k.task → tx.Quiet
  scaled : ∀ {i k}, g.store.contracts.get? i = some k →
    ∀ tx ∈ g.store.transactions, tx.task = k.task → tx.Scaled k

/-! #### Analyses -/

theorem analyses_empty : empty.Analyses critical := fun h => by cases h

/-- A contract without an analysis may be registered. -/
theorem Analyses.register (h : g.Analyses critical) {task : Task} {contract : Contract}
    {definition : AbiDefinition} (unanalyzed : contract.isAnalyzed = false) :
    (g.register task contract definition).Analyses critical := by
  intro i k hk analyzed
  rcases SortedMap.get?_insert_eq_some_iff.mp hk with ⟨-, rfl⟩ | ⟨-, hk⟩
  · exact absurd (unanalyzed.symm.trans analyzed) (by decide)
  · exact h hk analyzed

/-- Every move but a registration keeps analyses as they should be. -/
theorem Move.analyses (h : g.Analyses config.fuzzing.critical)
    (move : Move config (fun _ _ => False) g g') : g'.Analyses config.fuzzing.critical := by
  cases move with
  | register new accepted hdefinition => exact accepted.elim
  | @enrich contract d graph tx hcontract hgraph last htask hashed =>
    intro i k hk analyzed
    rcases SortedMap.get?_insert_eq_some_iff.mp hk with ⟨-, rfl⟩ | ⟨-, hk⟩
    · exact contract.exists_analyzedBy_enriched config d hgraph
        (h (Store.getContract_eq_ok_iff.mp hcontract))
    · exact h hk analyzed
  | _ => exact h

/-! #### Achievements -/

theorem normalised_empty : empty.Normalised where
  quiet h := by cases h
  scaled h := by cases h

namespace Normalised

/-- Transactions may be replaced by versions that have achieved the same, and further ones may be
added that have achieved nothing. -/
theorem replace (h : g.Normalised) {txs : List Transaction}
    (kept : ∀ tx ∈ txs, tx.Quiet ∨ ∃ old ∈ g.store.transactions, old.SameSignals tx) :
    (g.withTransactions txs).Normalised where
  quiet hk unanalyzed tx htx htask := by
    rcases kept tx htx with quiet | ⟨old, hold, same⟩
    · exact quiet
    · exact (h.quiet hk unanalyzed old hold (same.task.symm.trans htask)).of_same same
  scaled hk tx htx htask := by
    rcases kept tx htx with quiet | ⟨old, hold, same⟩
    · exact quiet.scaled _
    · exact (h.scaled hk old hold (same.task.symm.trans htask)).of_same same

/-- Transactions that have achieved nothing may be added, with any numbers. -/
theorem append (h : g.Normalised) {txs : List Transaction} (quiet : ∀ tx ∈ txs, tx.Quiet)
    (next : Nat) :
    Normalised
      { g.withTransactions (g.store.transactions ++ txs) with nextTransaction := next } := by
  have added : (g.withTransactions (g.store.transactions ++ txs)).Normalised := by
    refine h.replace fun tx htx => ?_
    rcases List.mem_append.mp htx with htx | htx
    · exact .inr ⟨tx, htx, .refl tx⟩
    · exact .inl (quiet tx htx)
  exact ⟨added.quiet, added.scaled⟩

/-- A contract may be registered under a new id for a new task, which has no transactions. -/
theorem register (h : g.Normalised) (sound : g.Sound) {task : Task} {contract : Contract}
    {definition : AbiDefinition} (newTask : g.store.tasks.get? task.id = none) :
    (g.register task contract definition).Normalised := by
  have noTransactions : ∀ tx ∈ g.store.transactions, tx.task ≠ task.id := by
    intro tx htx heq
    obtain ⟨t, ht⟩ := sound.taskOfTransaction tx htx
    rw [heq, newTask] at ht
    cases ht
  refine ⟨fun hk unanalyzed tx htx htask => ?_, fun hk tx htx htask => ?_⟩ <;>
    rcases SortedMap.get?_insert_eq_some_iff.mp hk with ⟨-, rfl⟩ | ⟨-, hk⟩
  · exact absurd htask (noTransactions tx htx)
  · exact h.quiet hk unanalyzed tx htx htask
  · exact absurd htask (noTransactions tx htx)
  · exact h.scaled hk tx htx htask

/-- A contract may be deployed again. If it takes up an analysis, nothing was achieved before. -/
theorem enrich (h : g.Normalised) {k : Contract} (hk : g.store.getContract k.id = .ok k)
    (config : Config) (d : Deployment) (graph : ControlFlowGraph) :
    Normalised { g with store := g.store.createContract (k.enriched config d graph) } := by
  have hk := Store.getContract_eq_ok_iff.mp hk
  have htask : (k.enriched config d graph).task = k.task := (enriched_same k config d graph).2
  refine ⟨fun hk' unanalyzed tx htx heq => ?_, fun hk' tx htx heq => ?_⟩ <;>
    rcases SortedMap.get?_insert_eq_some_iff.mp hk' with ⟨-, rfl⟩ | ⟨-, hk'⟩
  · rw [isAnalyzed_enriched] at unanalyzed
    cases unanalyzed
  · exact h.quiet hk' unanalyzed tx htx heq
  · -- An analysis that is there stays as it is; where there was none, nothing was achieved yet.
    cases analyzed : k.isAnalyzed with
    | true =>
      have scaled := h.scaled hk tx htx (heq.trans htask)
      rw [k.enriched_of_isAnalyzed config d graph analyzed]
      exact ⟨scaled.hits, scaled.targets, scaled.hops⟩
    | false => exact (h.quiet hk analyzed tx htx (heq.trans htask)).scaled _
  · exact h.scaled hk' tx htx heq

/-- An execution may be recorded, of a transaction that was waited for. -/
theorem record (h : g.Normalised) (sound : g.Sound) (analyses : g.Analyses critical)
    {before after : List Transaction} {tx : Transaction} {contract : Contract}
    (split : g.store.transactions = before ++ tx :: after) (unrecorded : tx.status ≠ .done)
    (hcontract : g.store.contractOfTask tx.task = .ok contract) (earlier executed : PcSet) :
    (g.withTransactions
      (before ++ tx.recorded critical contract earlier executed :: after)).Normalised := by
  obtain ⟨hstored, hown⟩ := sound.contractOfTask_eq_ok_iff.mp hcontract
  have hmem : tx ∈ g.store.transactions := split ▸ List.mem_append_right _ List.mem_cons_self
  -- Outcomes are only waited for once there is an analysis, so there is one to measure by.
  have analyzed : contract.isAnalyzed = true :=
    (sound.analyzed_iff hcontract).mp (sound.awaited tx hmem unrecorded)
  obtain ⟨graph, analysis⟩ := analyses hstored analyzed
  have unique : ∀ {i k}, g.store.contracts.get? i = some k → tx.task = k.task → k = contract := by
    intro i k hk heq
    rw [sound.contractUnique hk hstored (heq.symm.trans hown.symm), hstored] at hk
    exact (Option.some.inj hk).symm
  refine ⟨fun hk unanalyzed => ?_, fun hk => ?_⟩
  · have quiet := h.quiet hk unanalyzed
    rw [split] at quiet
    refine forall_mem_middle_iff.mpr ⟨fun heq => ?_, (forall_mem_middle_iff.mp quiet).2⟩
    rw [unique hk heq, analyzed] at unanalyzed
    cases unanalyzed
  · have scaled := h.scaled hk
    rw [split] at scaled
    refine forall_mem_middle_iff.mpr ⟨fun heq => ?_, (forall_mem_middle_iff.mp scaled).2⟩
    obtain rfl := unique hk heq
    exact analysis.scaled_recorded tx earlier executed

end Normalised

/-- The transactions of a batch have achieved nothing. -/
theorem quiet_of_mem_batch {first : Nat} {task : TaskId} {function : FunctionId}
    {clock : Nat → Instant} {seeds : List Seed} {outcome : BatchOutcome} {tx : Transaction}
    (h : tx ∈ (newBatch first task function clock seeds).map outcome.apply) : tx.Quiet := by
  obtain ⟨number, time, seed, -, rfl⟩ := exists_of_mem_batch h
  rw [outcome.apply_eq]
  exact ⟨rfl, rfl, rfl⟩

/-- Every move but a registration keeps transactions measured. -/
theorem Move.normalised (sound : g.Sound) (analyses : g.Analyses config.fuzzing.critical)
    (h : g.Normalised) (move : Move config (fun _ _ => False) g g') : g'.Normalised := by
  cases move with
  | register new accepted hdefinition => exact accepted.elim
  | start now htask created => exact ⟨h.quiet, h.scaled⟩
  | finish htask running expired => exact ⟨h.quiet, h.scaled⟩
  | request hcontract analyzed => exact ⟨h.quiet, h.scaled⟩
  | expire task cutoff =>
    refine h.replace fun tx' htx' => .inr ?_
    obtain ⟨tx, htx, rfl⟩ := List.mem_map.mp htx'
    refine ⟨tx, htx, ?_⟩
    split <;> exact ⟨rfl, rfl, rfl, rfl⟩
  | deploy now hash started htask hcontract hconstructor hdefinition drawn =>
    exact h.append (List.forall_mem_singleton.mpr ⟨rfl, rfl, rfl⟩) _
  | enrich hcontract hgraph last htask hashed => exact h.enrich hcontract config _ _
  | submit clock outcome requested htask running hcontract hdefinition candidate hmethod drawn =>
    exact h.append (fun _ => quiet_of_mem_batch) _
  | @record before after tx hash task contract executed split hashed first unrecorded htask
      hcontract =>
    have recorded := h.record sound analyses split unrecorded hcontract task.executed executed
    exact ⟨recorded.quiet, recorded.scaled⟩
  | weaken new split hashed first =>
    refine h.replace ?_
    rw [split]
    exact forall_mem_middle_iff.mpr
      ⟨.inr (exists_mem_middle_iff.mpr (.inl ⟨rfl, rfl, rfl, rfl⟩)),
        fun tx' htx' => .inr (exists_mem_middle_iff.mpr (.inr ⟨tx', htx', .refl tx'⟩))⟩

end Ledger

/-! ### Runs -/

namespace Campaign

variable {ω : Type} {e : Engine ω} {c : Campaign ω} {world : ω} {deployer fuzzer : Source}

/-- In every state of a run in which contracts are registered without an analysis, the analyzed ones
have taken up one of a decompiler's output, with respect to the critical instructions. -/
theorem LaterWith.analyses (h : LaterWith e (fun _ contract => contract.isAnalyzed = false)
    (initial world deployer fuzzer) c) : c.ledger.Analyses e.config.fuzzing.critical := by
  refine h.invariant (J := fun g => g.Analyses e.config.fuzzing.critical)
    (sound_initial world deployer fuzzer) ?_ ?_ ?_
  · exact ledger_initial world deployer fuzzer ▸ Ledger.analyses_empty
  · exact fun _ analyses unanalyzed _ _ _ => analyses.register unanalyzed
  · exact fun _ analyses move => move.analyses analyses

/-- In every state of a run in which contracts are registered without an analysis, each transaction
has hit the targets it executed, not more than there are, and it gained no more hops than the
largest distances of all blocks make together. So its signals are parts of their wholes. -/
theorem LaterWith.signals_normalised
    (h : LaterWith e (fun _ contract => contract.isAnalyzed = false)
      (initial world deployer fuzzer) c) {tx : Transaction} (htx : tx ∈ c.store.transactions) :
    ∃ k, c.store.contractOfTask tx.task = .ok k ∧
      tx.hits = (tx.executed.filter k.distances.contains).size ∧
      tx.hits ≤ k.targetCount ∧
      gainedHops tx.distanceGain ≤ k.distances.maxDistanceSum ∧
      ∀ signal policy, (Ranking.ofContract k signal policy).Normalises tx := by
  have sound : c.ledger.Sound := h.later.sound
  have normalised : c.ledger.Analyses e.config.fuzzing.critical ∧ c.ledger.Normalised := by
    refine h.invariant (J := fun g => g.Analyses e.config.fuzzing.critical ∧ g.Normalised)
      (sound_initial world deployer fuzzer) ?_ ?_ ?_
    · exact ledger_initial world deployer fuzzer ▸ ⟨Ledger.analyses_empty, Ledger.normalised_empty⟩
    · exact fun sound ⟨analyses, normalised⟩ unanalyzed newTask _ _ =>
        ⟨analyses.register unanalyzed, normalised.register sound newTask⟩
    · exact fun sound ⟨analyses, normalised⟩ move =>
        ⟨move.analyses analyses, move.normalised sound analyses normalised⟩
  obtain ⟨-, k, -, hk⟩ := sound.exists_task_contract htx
  obtain ⟨hstored, htask⟩ := sound.contractOfTask_eq_ok_iff.mp hk
  have scaled := normalised.2.scaled hstored tx htx htask.symm
  exact ⟨k, hk, scaled.hits, scaled.targets, scaled.hops, scaled.normalises⟩

/-- In the short campaign, the second input has hit the one target and carries the mark. -/
theorem signals_normalised_switchCampaign :
    switchCampaign.store.transactions.map (fun tx => (tx.status, tx.hits, tx.distanceGain)) =
      [(.done, 0, 0), (.done, 1, 1), (.done, 0, unreachable)] ∧
    ∀ tx ∈ switchCampaign.store.transactions, ∃ k,
      switchCampaign.store.contractOfTask tx.task = .ok k ∧
      tx.hits = (tx.executed.filter k.distances.contains).size ∧ tx.hits ≤ k.targetCount ∧
      gainedHops tx.distanceGain ≤ k.distances.maxDistanceSum ∧
      ∀ signal policy, (Ranking.ofContract k signal policy).Normalises tx :=
  ⟨by decide +kernel, fun _ htx => (laterWith_switchCampaign rfl).signals_normalised htx⟩

end Campaign

end ContractFuzz
