import ContractFuzz.Proofs.Replay
import ContractFuzz.Proofs.StableSort
import ContractFuzz.Proofs.Lookup
import Mathlib.Data.List.Nodup
/-!
# What a replay is determined by

A replay is determined by the order of the timestamps, and by the order in which transactions are
given where these agree. When no two transactions have the same timestamp, the order in which they
are given does not matter.

## Main definitions

* `IsTimeOrder` : transactions in order of time, ties as they were given.
* `executedBy` : what some transactions executed, all together.

## Main results

* `IsTimeOrder.unique` : there is only one order of time.
* `replay_eq_of_perm` : distinct timestamps.
* `replay_exact` : every sample of a replay, and what they have in common.
-/

namespace ContractFuzz

/-- Transactions in order of time, those of the same time in the order in which they are given. -/
structure IsTimeOrder (txs ordered : List Transaction) : Prop where
  /-- Nothing is added or left out. -/
  perm : ordered.Perm txs
  /-- No transaction comes before an earlier one. -/
  ascending : ordered.Pairwise fun a b => a.timestamp ≤ b.timestamp
  /-- Those of the same time stay in their order. -/
  stable (t : Instant) :
    ordered.filter (fun tx => tx.timestamp = t) = txs.filter fun tx => tx.timestamp = t

/-- What some transactions executed, all together. -/
def executedBy (txs : List Transaction) : PcSet := .ofList (txs.flatMap (·.executed.toList))

variable {txs txs' ordered ordered' : List Transaction}

/-! ### The order of time -/

/-- There is only one order of time. -/
theorem IsTimeOrder.unique (h : IsTimeOrder txs ordered) (h' : IsTimeOrder txs ordered') :
    ordered = ordered' := by
  have times : ordered.map (·.timestamp) = ordered'.map (·.timestamp) :=
    map_eq_of_pairwise (fun _ _ => Instant.le_antisymm) (h.perm.trans h'.perm.symm) h.ascending
      h'.ascending
  exact eq_of_map_eq_of_filter_eq times fun t => (h.stable t).trans (h'.stable t).symm

theorem isTimeOrder_inTimeOrder (txs : List Transaction) : IsTimeOrder txs (inTimeOrder txs) where
  perm := perm_inTimeOrder txs
  ascending := pairwise_sorted_by_time Transaction.timestamp txs
  stable t := by
    refine filter_mergeSort (oldest_first_trans Transaction.timestamp)
      (oldest_first_total Transaction.timestamp) fun a b ha hb => ?_
    rw [of_decide_eq_true ha, of_decide_eq_true hb]
    exact decide_eq_true (Int.le_refl _)

/-- When no two transactions are of the same time, there is only one way to sort them. -/
theorem inTimeOrder_eq_of_perm (hdistinct : (txs.map (·.timestamp)).Nodup)
    (hperm : txs'.Perm txs) : inTimeOrder txs' = inTimeOrder txs := by
  have h := isTimeOrder_inTimeOrder txs
  have h' := isTimeOrder_inTimeOrder txs'
  have hall : (inTimeOrder txs').Perm txs := h'.perm.trans hperm
  refine (hall.trans h.perm.symm).eq_of_pairwise (fun a b ha hb hab hba => ?_)
    h'.ascending h.ascending
  exact List.inj_on_of_nodup_map hdistinct (hall.subset ha) (h.perm.subset hb)
    (Instant.le_antisymm hab hba)

/-! ### Replays -/

theorem executedBy_eq (txs : List Transaction) : executedBy txs = executedAfter .empty txs :=
  SortedSet.ext_mem fun pc => by
    simp only [executedBy, SortedSet.mem_ofList, List.mem_flatMap, mem_executedAfter,
      SortedSet.not_mem_empty, false_or]
    rfl

variable {α : Type} (measure : PcSet → α)

/-- Without ties, the order in which transactions are given does not matter. -/
theorem replay_eq_of_perm (hdistinct : (txs.map (·.timestamp)).Nodup) (hperm : txs'.Perm txs) :
    replay measure txs' = replay measure txs := by
  rw [replay, replay, inTimeOrder_eq_of_perm hdistinct hperm]

/-- A replay takes one sample for each transaction. There is one order of time that leaves ties as
they are; the sample at a place is taken at the time of the transaction there, and measures what
that one and those before it executed. So the times are those of the transactions, in order; a
measure that changes in one direction as more is executed does so along the samples; the last sample
measures all that was executed; and without ties every list of the same transactions gives the same
samples. -/
theorem replay_exact (txs : List Transaction) :
    (∃ ordered, (∀ other, IsTimeOrder txs other ↔ other = ordered) ∧
      ∀ i, (replay measure txs)[i]? = ordered[i]?.map fun tx =>
        Sample.mk tx.timestamp (measure (executedBy (ordered.take (i + 1))))) ∧
    (replay measure txs).length = txs.length ∧
    ((replay measure txs).map (·.time)).Perm (txs.map (·.timestamp)) ∧
    ((replay measure txs).map (·.time)).Pairwise (· ≤ ·) ∧
    (∀ R : α → α → Prop, (∀ a b : PcSet, (∀ pc ∈ a, pc ∈ b) → R (measure a) (measure b)) →
      ((replay measure txs).map (·.value)).Pairwise R) ∧
    (txs ≠ [] →
      (replay measure txs).getLast?.map (·.value) = some (measure (executedBy txs))) ∧
    ((txs.map (·.timestamp)).Nodup → ∀ txs', txs'.Perm txs →
      replay measure txs' = replay measure txs) := by
  have horder := isTimeOrder_inTimeOrder txs
  refine ⟨⟨inTimeOrder txs, fun other => ⟨fun h => h.unique horder, fun h => h ▸ horder⟩,
    fun i => ?_⟩, ?_, ?_, ?_, fun R mono => ?_, fun hne => ?_, fun hdistinct txs' hperm => ?_⟩
  · simp only [executedBy_eq]
    exact getElem?_samplesFrom measure .empty (inTimeOrder txs) i
  · rw [replay, length_samplesFrom, horder.perm.length_eq]
  · rw [map_time_replay]
    exact horder.perm.map _
  · rw [map_time_replay]
    exact pairwise_inTimeOrder txs
  · exact pairwise_replay measure (mono _ _) txs
  · rw [executedBy_eq, getLast?_replay measure hne]
  · exact replay_eq_of_perm measure hdistinct hperm

/-- A call that was created at some second and executed some instructions. -/
def callRunning (second : Nat) (executed : List Pc) : Transaction :=
  { Transaction.new ⟨second⟩ ⟨0⟩ ⟨0⟩ [] (Instant.epoch.deadline (.ofSeconds second)) with
    executed := .ofList executed }

/-- Calls that are not given in the order of their timestamps. -/
def scatteredCalls : List Transaction :=
  [callRunning 30 [0, 10], callRunning 10 [0], callRunning 20 [20]]

/-- Given in any order, the calls yield the same samples of how much is executed, which never
shrink and end with three instructions. -/
theorem replay_exact_scatteredCalls :
    (∀ txs', txs'.Perm scatteredCalls →
      replay SortedSet.size txs' = replay SortedSet.size scatteredCalls) ∧
    ((replay SortedSet.size scatteredCalls).map (·.value)).Pairwise (· ≤ ·) ∧
    (replay SortedSet.size scatteredCalls).getLast?.map (·.value) = some 3 := by
  obtain ⟨-, -, -, -, pairwise, last, perm⟩ := replay_exact SortedSet.size scatteredCalls
  have hsize : (executedBy scatteredCalls).size = 3 := by decide +kernel
  refine ⟨perm (by decide), pairwise (· ≤ ·) fun a b hsub => ?_, ?_⟩
  · exact (List.subperm_of_subset a.nodup_toList hsub).length_le
  · rw [last (List.cons_ne_nil _ _), hsize]

end ContractFuzz
