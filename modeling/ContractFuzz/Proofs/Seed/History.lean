import ContractFuzz.Proofs.Chronology
import ContractFuzz.Seed.Schedule
/-!
# The history of a function

Seeds are bred from the newest finished transactions of a function. Here is what these are: how many
there are, and that all others are not newer.

## Main definitions

* `Store.finishedOf`, `Store.newestDone` : the finished transactions of a function, as they were
  created and by their timestamps.
* `AreNewest` : the newest of some transactions.

## Main results

* `areNewest_recentDone` : a history has the newest transactions.
* `recentDone_of_inOrder` : of transactions created in order of time these are the last ones.
* `rankedSeeds_perm` : ranking reorders the inputs of a history.
-/

namespace ContractFuzz

/-- The finished transactions of a function. -/
def Store.finishedOf (function : FunctionId) (s : Store) : List Transaction :=
  s.transactions.filter fun tx => tx.function == function && tx.status == .done

namespace Store

/-- All finished transactions of a function, the newest first. -/
def newestDone (function : FunctionId) (s : Store) : List Transaction :=
  (s.finishedOf function).reverse.mergeSort fun a b => decide (b.timestamp ≤ a.timestamp)

theorem recentDone_eq_take (s : Store) (function : FunctionId) (limit : Nat) :
    s.recentDone function limit = (s.newestDone function).take limit := rfl

theorem newestDone_perm (s : Store) (function : FunctionId) :
    (s.newestDone function).Perm (s.finishedOf function) :=
  (List.mergeSort_perm _ _).trans (List.reverse_perm _)

/-- Of transactions that were created in the order of their timestamps, a history has the last
ones. -/
theorem recentDone_of_inOrder {s : Store} {function : FunctionId}
    (h : (s.finishedOf function).Pairwise fun a b => a.timestamp ≤ b.timestamp) (limit : Nat) :
    s.recentDone function limit = (s.finishedOf function).reverse.take limit := by
  have hsorted : (s.finishedOf function).reverse.Pairwise fun a b => b.timestamp ≤ a.timestamp :=
    List.pairwise_reverse.mpr h
  rw [recentDone_eq_take, newestDone, List.mergeSort_of_pairwise (hsorted.imp decide_eq_true)]

end Store

/-- As many of the transactions as there may be, and none of the others is newer. -/
def AreNewest (limit : Nat) (recent all : List Transaction) : Prop :=
  ∃ older, (recent ++ older).Perm all ∧ recent.length = min limit all.length ∧
    ∀ tx ∈ recent, ∀ tx' ∈ older, tx'.timestamp ≤ tx.timestamp

theorem AreNewest.mem {limit : Nat} {recent all : List Transaction}
    (h : AreNewest limit recent all) {tx : Transaction} (htx : tx ∈ recent) : tx ∈ all := by
  obtain ⟨older, hperm, -⟩ := h
  exact hperm.subset (List.mem_append_left _ htx)

/-- The history of a function has its newest finished transactions. -/
theorem areNewest_recentDone (function : FunctionId) (limit : Nat) (s : Store) :
    AreNewest limit (s.recentDone function limit) (s.finishedOf function) := by
  have hperm := s.newestDone_perm function
  have hsorted : (s.newestDone function).Pairwise fun tx tx' => tx'.timestamp ≤ tx.timestamp :=
    pairwise_newest_first Transaction.timestamp _
  rw [← List.take_append_drop limit (s.newestDone function)] at hsorted
  rw [Store.recentDone_eq_take]
  refine ⟨(s.newestDone function).drop limit, ?_, ?_, (List.pairwise_append.mp hsorted).2.2⟩
  · rw [List.take_append_drop]
    exact hperm
  · rw [List.length_take, hperm.length_eq]

/-- Ranking puts the inputs of a history in another order. -/
theorem rankedSeeds_perm (config : FuzzingConfig) (store : Store) (target : FunctionTarget)
    (signal : Signal) : (rankedSeeds config store target signal).Perm
      ((store.recentDone target.function (2 * config.seedsSize)).map (·.inputs)) :=
  (List.mergeSort_perm _ _).map _

end ContractFuzz
