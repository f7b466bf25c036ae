import Mathlib.Data.List.Sort
import ContractFuzz.Proofs.StableSort
import ContractFuzz.Proofs.Seed.History
/-!
# The window of a function

A history looks at the newest finished transactions of a function through a window of a limited
length. What it sees is determined by the order of the timestamps, and by the order of creation
where these agree.

## Main definitions

* `Store.Newer` : one transaction comes before another in a history.
* `Store.IsWindow` : a list has the newest finished transactions of a function, in that order.

## Main results

* `isWindow_recentDone` : the history of a function is a window of it.
* `IsWindow.unique` : there is only one.
* `recentDone_exact` : a history is the window, a longer one goes on where it ends, and nothing but
  the finished transactions of the function counts.
-/

namespace ContractFuzz

namespace Store

/-- A transaction has the later timestamp, or the same and was created later. -/
def Newer (s : Store) (a b : Transaction) : Prop :=
  b.timestamp.nanoseconds < a.timestamp.nanoseconds ∨
    a.timestamp = b.timestamp ∧ [b, a].Sublist s.transactions

/-- The newest finished transactions of a function in a list without repetition, the newest first:
as many as there may be, and all others come after them. -/
structure IsWindow (s : Store) (function : FunctionId) (limit : Nat)
    (window : List Transaction) : Prop where
  /-- No transaction stands in it twice. -/
  nodup : window.Nodup
  /-- They are finished transactions of the function. -/
  finished : ∀ tx ∈ window, tx ∈ s.finishedOf function
  /-- There are as many as there may be. -/
  length_eq : window.length = min limit (s.finishedOf function).length
  /-- They come in order. -/
  ordered : window.Pairwise s.Newer
  /-- What is left out comes after them. -/
  newest : ∀ tx ∈ window, ∀ old ∈ s.finishedOf function, old ∉ window → s.Newer tx old

variable {s : Store} {function : FunctionId} {limit : Nat}

/-- In a list without repetition no two come one before the other both ways round. -/
private theorem not_sublist_swap {l : List Transaction} (hl : l.Nodup) {a b : Transaction}
    (hab : [a, b].Sublist l) : ¬ [b, a].Sublist l := by
  intro hba
  have heq : [a, b] = [b, a] :=
    (hl.perm_iff_eq_of_sublist hab hba).mp (List.Perm.swap b a [])
  obtain rfl : a = b := (List.cons.inj heq).1
  exact absurd (hl.sublist hab) (by simp)

/-- Of two transactions at most one is the newer. -/
theorem Newer.asymm (hnodup : s.transactions.Nodup) {a b : Transaction} (hab : s.Newer a b) :
    ¬ s.Newer b a := by
  rintro (hlt | ⟨heq, hcreated⟩)
  · obtain hlt' | ⟨heq', -⟩ := hab
    · omega
    · rw [heq'] at hlt
      exact Int.lt_irrefl _ hlt
  · obtain hlt' | ⟨-, hcreated'⟩ := hab
    · rw [heq] at hlt'
      exact Int.lt_irrefl _ hlt'
    · exact not_sublist_swap hnodup hcreated hcreated'

/-- Sorting by timestamps leaves those of the same timestamp in the order of creation, backwards. -/
theorem pairwise_newer (s : Store) (function : FunctionId) :
    (s.newestDone function).Pairwise s.Newer := by
  refine List.pairwise_iff_forall_sublist.mpr fun {a b} hab => ?_
  have hle : b.timestamp ≤ a.timestamp :=
    List.pairwise_iff_forall_sublist.mp (pairwise_newest_first Transaction.timestamp _) hab
  obtain hlt | heq := Int.lt_or_eq_of_le hle
  · exact .inl hlt
  · refine .inr ⟨Instant.le_antisymm (Int.le_of_eq heq.symm) hle, ?_⟩
    have hreverse : [a, b].Sublist (s.finishedOf function).reverse :=
      pair_sublist_of_mergeSort (newest_first_trans Transaction.timestamp)
        (newest_first_total Transaction.timestamp)
        (decide_eq_true (Int.le_of_eq heq.symm)) hab
    have hcreated : [b, a].Sublist (s.finishedOf function) := by
      rw [← List.reverse_reverse (s.finishedOf function)]
      exact hreverse.reverse
    exact hcreated.trans List.filter_sublist

theorem nodup_finishedOf (hnodup : s.transactions.Nodup) : (s.finishedOf function).Nodup :=
  hnodup.sublist List.filter_sublist

/-- The history of a function is a window of it. -/
theorem isWindow_recentDone (hnodup : s.transactions.Nodup) :
    s.IsWindow function limit (s.recentDone function limit) := by
  have hperm := s.newestDone_perm function
  have hall := s.pairwise_newer function
  have hsplit := List.take_append_drop limit (s.newestDone function)
  rw [← hsplit] at hall
  rw [recentDone_eq_take]
  constructor
  case nodup =>
    exact (hperm.nodup_iff.mpr (nodup_finishedOf hnodup)).sublist (List.take_sublist _ _)
  case finished => exact fun tx htx => hperm.subset (List.mem_of_mem_take htx)
  case length_eq => rw [List.length_take, hperm.length_eq]
  case ordered => exact (List.pairwise_append.mp hall).1
  case newest =>
    intro tx htx old hold hout
    have hmem : old ∈ s.newestDone function := hperm.symm.subset hold
    rw [← hsplit] at hmem
    have hdropped := (List.mem_append.mp hmem).resolve_left hout
    exact (List.pairwise_append.mp hall).2.2 tx htx old hdropped

/-- What one window has, another one has too: a transaction in exchange for it would be newer as
well as older. -/
private theorem IsWindow.subset (hnodup : s.transactions.Nodup) {window window' : List Transaction}
    (h : s.IsWindow function limit window) (h' : s.IsWindow function limit window') :
    window ⊆ window' := by
  intro tx htx
  by_contra hout
  obtain ⟨other, hother, hout'⟩ : ∃ other ∈ window', other ∉ window := by
    by_contra hall
    have hsubset : window' ⊆ window := fun other hother => by
      by_contra hout'
      exact hall ⟨other, hother, hout'⟩
    have hlength : window.length = window'.length := h.length_eq.trans h'.length_eq.symm
    have hperm : window'.Perm window :=
      (List.subperm_of_subset h'.nodup hsubset).perm_of_length_le hlength.le
    exact hout (hperm.symm.subset htx)
  exact (h.newest tx htx other (h'.finished other hother) hout').asymm hnodup
    (h'.newest other hother tx (h.finished tx htx) hout)

/-- There is only one window of a function. -/
theorem IsWindow.unique (hnodup : s.transactions.Nodup) {window window' : List Transaction}
    (h : s.IsWindow function limit window) (h' : s.IsWindow function limit window') :
    window = window' := by
  have : Std.Asymm s.Newer := ⟨fun _ _ hab => hab.asymm hnodup⟩
  exact h.ordered.eq_of_mem_iff h'.ordered fun tx =>
    ⟨fun htx => h.subset hnodup h' htx, fun htx => h'.subset hnodup h htx⟩

/-- A history is the window of its function, the only one there is. A longer one goes on where it
ends, and nothing but the finished transactions of the function has an influence on it. -/
theorem recentDone_exact (s : Store) (hids : (s.transactions.map (·.id)).Nodup)
    (function : FunctionId) (limit : Nat) :
    (∀ window, s.IsWindow function limit window ↔ window = s.recentDone function limit) ∧
      (∀ limit', limit ≤ limit' →
        s.recentDone function limit <+: s.recentDone function limit') ∧
      ∀ s' : Store, s'.finishedOf function = s.finishedOf function →
        s'.recentDone function limit = s.recentDone function limit := by
  have hnodup : s.transactions.Nodup := hids.of_map _
  refine ⟨fun window => ⟨fun h => h.unique hnodup (isWindow_recentDone hnodup), ?_⟩, ?_, ?_⟩
  · rintro rfl
    exact isWindow_recentDone hnodup
  · intro limit' hle
    rw [recentDone_eq_take, recentDone_eq_take]
    exact List.take_prefix_take_left hle
  · intro s' heq
    rw [recentDone_eq_take, recentDone_eq_take, newestDone, newestDone, heq]

/-- A transaction of a function that was created at some second. -/
def callAt (number function : Nat) (status : TransactionStatus) (second : Nat) :
    Transaction :=
  { Transaction.new ⟨number⟩ ⟨0⟩ ⟨function⟩ [] (Instant.epoch.deadline (.ofSeconds second)) with
    status }

/-- Transactions that were not created in the order of their timestamps, with two of the same
second, one of another function and one that is not finished. -/
def mixedHistory : Store :=
  { empty with
    transactions := [callAt 0 0 .done 10, callAt 1 0 .done 30, callAt 2 1 .done 40,
      callAt 3 0 .running 50, callAt 4 0 .done 30, callAt 5 0 .done 20] }

private theorem isWindow_mixedHistory :
    mixedHistory.IsWindow ⟨0⟩ 2 [callAt 4 0 .done 30, callAt 1 0 .done 30] := by
  have hfinished : mixedHistory.finishedOf ⟨0⟩ =
    [callAt 0 0 .done 10, callAt 1 0 .done 30, callAt 4 0 .done 30, callAt 5 0 .done 20] := rfl
  have hcreated : [callAt 1 0 .done 30, callAt 4 0 .done 30].Sublist mixedHistory.transactions :=
    .cons _ (.cons_cons _ (.cons _ (.cons _ (.cons_cons _ (.cons _ .slnil)))))
  constructor
  case nodup => exact .of_map (·.id) (by decide)
  case finished => simp [hfinished]
  case length_eq => rw [hfinished]; rfl
  case ordered => exact List.pairwise_pair.mpr (.inr ⟨rfl, hcreated⟩)
  case newest =>
    intro tx htx old hold hout
    have hold' : old = callAt 0 0 .done 10 ∨ old = callAt 5 0 .done 20 := by
      rw [hfinished] at hold
      simp only [List.mem_cons, List.not_mem_nil, or_false] at hold hout
      tauto
    refine .inl ?_
    obtain rfl | htx := List.mem_cons.mp htx
    · obtain rfl | rfl := hold' <;> decide
    · obtain rfl := List.mem_singleton.mp htx
      obtain rfl | rfl := hold' <;> decide

theorem recentDone_exact_mixedHistory :
    mixedHistory.recentDone ⟨0⟩ 2 = [callAt 4 0 .done 30, callAt 1 0 .done 30] := by
  have exact := recentDone_exact mixedHistory (by decide) ⟨0⟩ 2
  exact ((exact.1 _).mp isWindow_mixedHistory).symm

end Store

end ContractFuzz
