import ContractFuzz.Report
import ContractFuzz.Proofs.Chronology
/-!
# Replays

A replay goes through transactions in order of time. After each of them it takes one sample: the
measure of all that was executed up to there.

## Main definitions

* `executedAfter` : what is executed after some transactions.

## Main results

* `getElem?_samplesFrom` : every sample.
* `map_time_replay`, `getLast?_replay` : the times of all samples, and the value of the last one.
* `pairwise_replay` : a measure that grows or shrinks does so along a replay.
-/

namespace ContractFuzz

/-- What was executed before some transactions and by them. -/
def executedAfter (executed : PcSet) (txs : List Transaction) : PcSet :=
  txs.foldl (fun all tx => all.union tx.executed) executed

variable {executed : PcSet} {txs txs' : List Transaction}

theorem mem_executedAfter {pc : Pc} :
    pc ∈ executedAfter executed txs ↔ pc ∈ executed ∨ ∃ tx ∈ txs, pc ∈ tx.executed := by
  induction txs generalizing executed with
  | nil => simp [executedAfter]
  | cons tx txs ih =>
    change pc ∈ executedAfter (executed.union tx.executed) txs ↔ _
    simp [ih, or_assoc]

/-- The order of the transactions does not matter. -/
theorem executedAfter_eq_of_perm (h : txs.Perm txs') :
    executedAfter executed txs = executedAfter executed txs' :=
  SortedSet.ext_mem fun pc => by simp only [mem_executedAfter, h.mem_iff]

/-- More is executed after more transactions. -/
theorem mem_executedAfter_take {i j : Nat} (h : i ≤ j) {pc : Pc}
    (hpc : pc ∈ executedAfter executed (txs.take i)) :
    pc ∈ executedAfter executed (txs.take j) := by
  refine mem_executedAfter.mpr ((mem_executedAfter.mp hpc).imp id ?_)
  rintro ⟨tx, htx, hboth⟩
  exact ⟨tx, (List.take_sublist_take_left h).subset htx, hboth⟩

/-! ### Samples -/

variable {α : Type} (measure : PcSet → α)

/-- The sample after a transaction measures what that one and those before it executed. -/
theorem getElem?_samplesFrom (executed : PcSet) (txs : List Transaction) (i : Nat) :
    (samplesFrom measure executed txs)[i]? = txs[i]?.map fun tx =>
      ⟨tx.timestamp, measure (executedAfter executed (txs.take (i + 1)))⟩ := by
  induction txs generalizing executed i with
  | nil => rfl
  | cons tx txs ih =>
    cases i with
    | zero => rfl
    | succ i => exact ih (executed.union tx.executed) i

theorem map_time_samplesFrom (executed : PcSet) (txs : List Transaction) :
    (samplesFrom measure executed txs).map (·.time) = txs.map (·.timestamp) := by
  refine List.ext_getElem? fun i => ?_
  rw [List.getElem?_map, getElem?_samplesFrom, Option.map_map, List.getElem?_map]
  rfl

theorem length_samplesFrom (executed : PcSet) (txs : List Transaction) :
    (samplesFrom measure executed txs).length = txs.length := by
  simpa using congrArg List.length (map_time_samplesFrom measure executed txs)

/-- The last sample measures all that was executed. -/
theorem getLast?_samplesFrom (executed : PcSet) (h : txs ≠ []) :
    (samplesFrom measure executed txs).getLast?.map (·.value) =
      some (measure (executedAfter executed txs)) := by
  have hlength : txs.length - 1 < txs.length :=
    Nat.sub_lt (List.length_pos_iff.mpr h) Nat.one_pos
  rw [List.getLast?_eq_getElem?, length_samplesFrom, getElem?_samplesFrom, Option.map_map,
    List.getElem?_eq_getElem hlength, List.take_of_length_le (by omega)]
  rfl

/-- A measure that changes in one direction as more is executed does so along the samples. -/
theorem pairwise_samplesFrom {R : α → α → Prop}
    (mono : ∀ {a b : PcSet}, (∀ pc ∈ a, pc ∈ b) → R (measure a) (measure b)) (executed : PcSet)
    (txs : List Transaction) :
    ((samplesFrom measure executed txs).map (·.value)).Pairwise R := by
  refine List.pairwise_map.mpr (List.pairwise_iff_getElem.mpr fun i j hi hj hij => ?_)
  have value : ∀ {k} (hk : k < (samplesFrom measure executed txs).length),
      (samplesFrom measure executed txs)[k].value =
        measure (executedAfter executed (txs.take (k + 1))) := by
    intro k hk
    have hsample := getElem?_samplesFrom measure executed txs k
    rw [List.getElem?_eq_getElem hk,
      List.getElem?_eq_getElem (length_samplesFrom measure executed txs ▸ hk)] at hsample
    exact congrArg Sample.value (Option.some.inj hsample)
  rw [value hi, value hj]
  exact mono fun pc hpc => mem_executedAfter_take (by omega) hpc

/-! ### Replays -/

theorem perm_inTimeOrder (txs : List Transaction) : (inTimeOrder txs).Perm txs :=
  List.mergeSort_perm _ _

/-- The samples are taken when the transactions were created, in order of time. -/
theorem map_time_replay (txs : List Transaction) :
    (replay measure txs).map (·.time) = (inTimeOrder txs).map (·.timestamp) :=
  map_time_samplesFrom measure .empty (inTimeOrder txs)

theorem pairwise_inTimeOrder (txs : List Transaction) :
    ((inTimeOrder txs).map (·.timestamp)).Pairwise (· ≤ ·) :=
  List.pairwise_map.mpr (pairwise_sorted_by_time Transaction.timestamp txs)

/-- The last sample measures all that the transactions executed, in whatever order. -/
theorem getLast?_replay (h : txs ≠ []) :
    (replay measure txs).getLast?.map (·.value) = some (measure (executedAfter .empty txs)) := by
  have horder : inTimeOrder txs ≠ [] := fun hnil =>
    h (List.nil_perm.mp (hnil ▸ perm_inTimeOrder txs))
  rw [replay, getLast?_samplesFrom measure .empty horder,
    executedAfter_eq_of_perm (perm_inTimeOrder txs)]

theorem pairwise_replay {R : α → α → Prop}
    (mono : ∀ {a b : PcSet}, (∀ pc ∈ a, pc ∈ b) → R (measure a) (measure b))
    (txs : List Transaction) : ((replay measure txs).map (·.value)).Pairwise R :=
  pairwise_samplesFrom measure mono .empty (inTimeOrder txs)

end ContractFuzz
