import ContractFuzz.Time.Instant
/-!
# Order of time

Instants are ordered by what has passed since the epoch, and whatever is sorted by an instant comes
in order of time.

## Main results

* `Instant.le_trans`, `Instant.le_total`, `Instant.le_antisymm` : the order of instants.
* `pairwise_sorted_by_time`, `pairwise_newest_first` : the two ways to sort.
-/

namespace ContractFuzz

namespace Instant

theorem le_trans {s t u : Instant} (h : s ≤ t) (h' : t ≤ u) : s ≤ u := Int.le_trans h h'

theorem le_total (s t : Instant) : s ≤ t ∨ t ≤ s := Int.le_total s.nanoseconds t.nanoseconds

theorem eq_of_nanoseconds_eq {s t : Instant} (h : s.nanoseconds = t.nanoseconds) : s = t := by
  cases s
  cases t
  exact (Instant.mk.injEq ..).mpr h

theorem le_antisymm {s t : Instant} (h : s ≤ t) (h' : t ≤ s) : s = t :=
  eq_of_nanoseconds_eq (Int.le_antisymm h h')

end Instant

variable {α : Type} (time : α → Instant) (l : List α)

theorem oldest_first_trans (a b c : α) (hab : decide (time a ≤ time b) = true)
    (hbc : decide (time b ≤ time c) = true) : decide (time a ≤ time c) = true :=
  decide_eq_true (Instant.le_trans (of_decide_eq_true hab) (of_decide_eq_true hbc))

theorem oldest_first_total (a b : α) :
    (decide (time a ≤ time b) || decide (time b ≤ time a)) = true := by
  simpa only [Bool.or_eq_true, decide_eq_true_eq] using Instant.le_total (time a) (time b)

/-- Sorted by an instant, everything comes in order of time. -/
theorem pairwise_sorted_by_time :
    (l.mergeSort fun a b => decide (time a ≤ time b)).Pairwise fun a b => time a ≤ time b :=
  (List.pairwise_mergeSort (oldest_first_trans time) (oldest_first_total time) l).imp
    of_decide_eq_true

theorem newest_first_trans (a b c : α) (hab : decide (time b ≤ time a) = true)
    (hbc : decide (time c ≤ time b) = true) : decide (time c ≤ time a) = true :=
  oldest_first_trans time c b a hbc hab

theorem newest_first_total (a b : α) :
    (decide (time b ≤ time a) || decide (time a ≤ time b)) = true :=
  oldest_first_total time b a

/-- Sorted the other way, the newest comes first. -/
theorem pairwise_newest_first :
    (l.mergeSort fun a b => decide (time b ≤ time a)).Pairwise fun a b => time b ≤ time a :=
  (List.pairwise_mergeSort (newest_first_trans time) (newest_first_total time) l).imp
    of_decide_eq_true

end ContractFuzz
