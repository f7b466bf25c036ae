import ContractFuzz.Campaign.Recording
import ContractFuzz.Proofs.Chronology
/-!
# Saturating instants

Sums and differences of instants and durations are exact within the calendar, and beyond it they
are the limit on their side. Calendar arithmetic gives no result for two reasons: the duration may
be too long for a span, or the result may lie outside the calendar. Since no two instants are as far
apart as the longest span reaches, the first reason never arises without the second one, and a
limit is the answer exactly where the exact result is out of reach.

## Main results

* `Instant.after?_eq`, `Instant.before?_eq` : the size of a span never decides.
* `Instant.nanoseconds_deadline`, `Instant.nanoseconds_cutoff` : the exact result or the limit.
* `Instant.le_cutoff_iff` : an instant is no later than a cutoff if its own deadline has passed.
* `Instant.deadline_cutoff_exact` : all of it, with what follows for tasks and transactions.
-/

namespace ContractFuzz

/-- A duration that is too long for a span is longer than the calendar. -/
theorem Duration.span?_cases (d : Duration) :
    (∃ s, d.span? = some s ∧ s.nanoseconds = d.nanoseconds) ∨
      (d.span? = none ∧ Instant.latestNanos - Instant.earliestNanos < d.nanoseconds) := by
  have hcalendar : Instant.latestNanos - Instant.earliestNanos < Span.limit := by decide
  unfold span?
  split
  · exact .inl ⟨_, rfl, rfl⟩
  · exact .inr ⟨rfl, by omega⟩

namespace Instant

variable {s t now : Instant} {d e : Duration}

/-! ### Results within the calendar -/

/-- The instant a duration later is missing only where the sum lies outside the calendar. -/
theorem after?_eq (s : Instant) (d : Duration) :
    s.after? d = ofNanos? (s.nanoseconds + d.nanoseconds) := by
  obtain ⟨span, hspan, hnanos⟩ | ⟨hspan, hlong⟩ := d.span?_cases
  · rw [after?, hspan, Option.bind_some, add?, hnanos]
  · have hs := s.earliest_le
    rw [after?, hspan, Option.bind_none, ofNanos?, dif_neg (by omega)]

/-- The instant a duration earlier is missing only where the difference lies outside the
calendar. -/
theorem before?_eq (s : Instant) (d : Duration) :
    s.before? d = ofNanos? (s.nanoseconds - d.nanoseconds) := by
  obtain ⟨span, hspan, hnanos⟩ | ⟨hspan, hlong⟩ := d.span?_cases
  · rw [before?, hspan, Option.bind_some, sub?, hnanos]
  · have hs := s.le_latest
    rw [before?, hspan, Option.bind_none, ofNanos?, dif_neg (by omega)]

/-! ### Deadlines and cutoffs -/

/-- A deadline is the sum, or the last instant if that comes first. -/
theorem nanoseconds_deadline (s : Instant) (d : Duration) :
    (s.deadline d).nanoseconds = min (s.nanoseconds + d.nanoseconds) latestNanos := by
  have hs := s.earliest_le
  rw [deadline, after?_eq, ofNanos?]
  split
  · next h => exact (Int.min_eq_left h.2).symm
  · have hlate : latestNanos ≤ s.nanoseconds + d.nanoseconds := by omega
    exact (Int.min_eq_right hlate).symm

/-- A cutoff is the difference, or the first instant if that comes later. -/
theorem nanoseconds_cutoff (s : Instant) (d : Duration) :
    (s.cutoff d).nanoseconds = max (s.nanoseconds - d.nanoseconds) earliestNanos := by
  have hs := s.le_latest
  rw [cutoff, before?_eq, ofNanos?]
  split
  · next h => exact (Int.max_eq_left h.1).symm
  · have hearly : s.nanoseconds - d.nanoseconds ≤ earliestNanos := by omega
    exact (Int.max_eq_right hearly).symm

theorem deadline_of_lt (h : latestNanos < s.nanoseconds + d.nanoseconds) :
    s.deadline d = latest :=
  eq_of_nanoseconds_eq ((nanoseconds_deadline s d).trans (Int.min_eq_right (Int.le_of_lt h)))

theorem cutoff_of_lt (h : s.nanoseconds - d.nanoseconds < earliestNanos) :
    s.cutoff d = earliest :=
  eq_of_nanoseconds_eq ((nanoseconds_cutoff s d).trans (Int.max_eq_right (Int.le_of_lt h)))

theorem le_deadline (s : Instant) (d : Duration) : s ≤ s.deadline d := by
  have hs := s.le_latest
  rw [le_def, nanoseconds_deadline]
  omega

theorem cutoff_le (s : Instant) (d : Duration) : s.cutoff d ≤ s := by
  have hs := s.earliest_le
  rw [le_def, nanoseconds_cutoff]
  omega

theorem deadline_mono (hst : s ≤ t) (hde : d.nanoseconds ≤ e.nanoseconds) :
    s.deadline d ≤ t.deadline e := by
  rw [le_def] at hst ⊢
  rw [nanoseconds_deadline, nanoseconds_deadline]
  omega

theorem cutoff_mono (hst : s ≤ t) (hde : d.nanoseconds ≤ e.nanoseconds) :
    s.cutoff e ≤ t.cutoff d := by
  rw [le_def] at hst ⊢
  rw [nanoseconds_cutoff, nanoseconds_cutoff]
  omega

/-- An instant is no later than the cutoff exactly if its own deadline has passed. Only the first
instant may be called too old because the cutoff stops there, and only at the last one may a
deadline have passed because it stops there. -/
theorem le_cutoff_iff
    (late : s.nanoseconds + d.nanoseconds ≤ latestNanos ∨ now ≠ latest)
    (early : earliestNanos ≤ now.nanoseconds - d.nanoseconds ∨ s ≠ earliest) :
    s ≤ now.cutoff d ↔ s.deadline d ≤ now := by
  have hs := s.earliest_le
  have hnow := now.le_latest
  have hlast : now ≠ latest → now.nanoseconds ≠ latestNanos :=
    mt fun h => eq_of_nanoseconds_eq h
  have hfirst : s ≠ earliest → s.nanoseconds ≠ earliestNanos :=
    mt fun h => eq_of_nanoseconds_eq h
  replace late := late.imp_right hlast
  replace early := early.imp_right hfirst
  rw [le_def, le_def, nanoseconds_cutoff, nanoseconds_deadline]
  omega

end Instant

/-! ### Tasks and transactions -/

/-- The time of a task is over from the deadline of its start on. -/
theorem Task.isExpired_started (t : Task) (start now : Instant) :
    (t.started start).isExpired now = decide (start.deadline t.duration ≤ now) := rfl

/-- A submitted transaction is stale if it was created until the cutoff. -/
theorem Transaction.isStale_of_running {tx : Transaction} (running : tx.status = .running)
    (cutoff : Instant) : tx.isStale cutoff = decide (tx.timestamp ≤ cutoff) := by
  rw [isStale, running]
  rfl

namespace Instant

/-- For every instant and every duration, however long: the deadline is the exact sum unless that
lies after the last instant, which then is the deadline, and the cutoff is the exact difference
unless that lies before the first instant, which then is the cutoff. So the instant lies between
the two. Both come no earlier for a later instant, and for a longer duration the deadline comes no
earlier and the cutoff no later. Where neither its deadline nor the cutoff of a later time stops at
a limit, and also where it is not the first instant and that time not the last one, an instant is no
later than the cutoff exactly if its deadline has passed. Then a task that was started and a
transaction that was created at this instant, with the same time allowed, are over alike. -/
theorem deadline_cutoff_exact (s : Instant) (d : Duration) :
    (s.nanoseconds + d.nanoseconds ≤ latestNanos →
      (s.deadline d).nanoseconds = s.nanoseconds + d.nanoseconds) ∧
    (latestNanos < s.nanoseconds + d.nanoseconds → s.deadline d = latest) ∧
    (earliestNanos ≤ s.nanoseconds - d.nanoseconds →
      (s.cutoff d).nanoseconds = s.nanoseconds - d.nanoseconds) ∧
    (s.nanoseconds - d.nanoseconds < earliestNanos → s.cutoff d = earliest) ∧
    s.cutoff d ≤ s ∧ s ≤ s.deadline d ∧
    (∀ t, s ≤ t → s.deadline d ≤ t.deadline d ∧ s.cutoff d ≤ t.cutoff d) ∧
    (∀ e : Duration, d.nanoseconds ≤ e.nanoseconds →
      s.deadline d ≤ s.deadline e ∧ s.cutoff e ≤ s.cutoff d) ∧
    ∀ now, (s.nanoseconds + d.nanoseconds ≤ latestNanos ∧
        earliestNanos ≤ now.nanoseconds - d.nanoseconds ∨ s ≠ earliest ∧ now ≠ latest) →
      (s ≤ now.cutoff d ↔ s.deadline d ≤ now) ∧
      ∀ (t : Task) (tx : Transaction), t.duration = d → tx.status = .running →
        tx.timestamp = s → (t.started s).isExpired now = tx.isStale (now.cutoff d) := by
  refine ⟨fun h => ?_, deadline_of_lt, fun h => ?_, cutoff_of_lt, cutoff_le s d, le_deadline s d,
    fun t hst => ⟨deadline_mono hst Nat.le.refl, cutoff_mono hst Nat.le.refl⟩,
    fun e hde => ⟨deadline_mono (Int.le_refl _) hde, cutoff_mono (Int.le_refl _) hde⟩,
    fun now h => ?_⟩
  · rw [nanoseconds_deadline, Int.min_eq_left h]
  · rw [nanoseconds_cutoff, Int.max_eq_left h]
  · have hiff : s ≤ now.cutoff d ↔ s.deadline d ≤ now :=
      le_cutoff_iff (h.imp And.left And.right) (h.imp And.right And.left)
    refine ⟨hiff, ?_⟩
    rintro t tx rfl running rfl
    rw [Task.isExpired_started, Transaction.isStale_of_running running]
    exact decide_eq_decide.mpr hiff.symm

/-- A task that is started at the epoch and runs for half a minute, and a transaction of the epoch
with half a minute to wait for, are over in the same nanosecond. The longest duration that can be
written leads to both limits. -/
theorem deadline_cutoff_exact_halfMinute :
    let half := Duration.ofSeconds 30
    let longest := Duration.ofParts 18446744073709551615 999999999
    let now := epoch.deadline half
    let task : Task := ⟨⟨1⟩, .blackbox, [], .created, half, none, none, .empty⟩
    let tx := { Transaction.new ⟨1⟩ ⟨1⟩ ⟨1⟩ [] epoch with status := .running }
    now.nanoseconds = epoch.nanoseconds + half.nanoseconds ∧
      (now.cutoff half).nanoseconds = now.nanoseconds - half.nanoseconds ∧
      epoch.deadline longest = latest ∧ now.cutoff longest = earliest ∧
      now.deadline half ≤ latest.deadline half ∧ now.deadline half ≤ now.deadline longest ∧
      (task.started epoch).isExpired now = tx.isStale (now.cutoff half) ∧
      tx.isStale (now.cutoff half) = true := by
  intro half longest now task tx
  obtain ⟨sum, -, -, -, -, -, -, -, alike⟩ := deadline_cutoff_exact epoch half
  obtain ⟨-, -, difference, -, -, -, later, longer, -⟩ := deadline_cutoff_exact now half
  obtain ⟨-, last, -⟩ := deadline_cutoff_exact epoch longest
  obtain ⟨-, -, -, first, -⟩ := deadline_cutoff_exact now longest
  refine ⟨sum (by decide), difference (by decide), last (by decide), first (by decide),
    (later latest now.le_latest).1, (longer longest (by decide)).1, ?_, by decide⟩
  exact (alike now (.inl (by decide))).2 task tx rfl rfl rfl

end Instant

end ContractFuzz
