/-!
# Instants and durations

Points of the time line between two calendar limits, counted in nanoseconds since the Unix epoch,
and lengths of time. Calendar arithmetic takes spans, which have a limit of their own, and has no
result outside the calendar. Where it has none, adding a duration stops at the latest instant, and
subtracting one at the earliest.

## Main definitions

* `Instant`, `Duration`, `Span`.
* `Instant.clamp`: the instant nearest to a count of nanoseconds.
* `Instant.after?`, `Instant.before?`: the instant a duration later or earlier, if there is one.
* `Instant.deadline`, `Instant.cutoff`: saturating sum and difference.
-/

namespace ContractFuzz

/-- A length of time. -/
structure Duration where
  /-- Its nanoseconds. -/
  nanoseconds : Nat
deriving DecidableEq, Inhabited, Repr

namespace Duration

/-- A number of seconds and nanoseconds. -/
def ofParts (seconds nanos : Nat) : Duration := ⟨seconds * 1000000000 + nanos⟩

/-- A number of whole seconds. -/
def ofSeconds (seconds : Nat) : Duration := ofParts seconds 0

end Duration

/-- The nanoseconds of the longest span, which has 2⁶³ - 1 milliseconds. -/
def Span.limit : Nat := 9223372036854775807 * 1000000

/-- A length of time, forward or backward, of the size that calendar arithmetic takes. -/
structure Span where
  /-- Its nanoseconds, negative if it leads backward. -/
  nanoseconds : Int
  /-- It is not longer than the longest one. -/
  within : nanoseconds.natAbs ≤ Span.limit
deriving DecidableEq

/-- A duration as a span forward, unless it is too long for one. -/
def Duration.span? (d : Duration) : Option Span :=
  if h : d.nanoseconds ≤ Span.limit then some ⟨d.nanoseconds, h⟩ else none

namespace Instant

/-- Nanoseconds from the epoch to the earliest instant, the first of the year -262143. -/
def earliestNanos : Int := -8334601228800 * 1000000000

/-- Nanoseconds from the epoch to the latest instant, the last of the year 262142. -/
def latestNanos : Int := 8210266876799 * 1000000000 + 999999999

end Instant

/-- A point in time between the two calendar limits. -/
structure Instant where
  /-- Nanoseconds since the start of 1970. -/
  nanoseconds : Int
  /-- It is not before the first limit. -/
  earliest_le : Instant.earliestNanos ≤ nanoseconds
  /-- It is not after the second limit. -/
  le_latest : nanoseconds ≤ Instant.latestNanos
deriving DecidableEq

namespace Instant

/-- The first instant. -/
def earliest : Instant := ⟨earliestNanos, by decide, by decide⟩

/-- The last instant. -/
def latest : Instant := ⟨latestNanos, by decide, by decide⟩

/-- The start of 1970. -/
def epoch : Instant := ⟨0, by decide, by decide⟩

instance : Inhabited Instant := ⟨epoch⟩

instance : LE Instant := ⟨fun s t => s.nanoseconds ≤ t.nanoseconds⟩

instance (s t : Instant) : Decidable (s ≤ t) :=
  inferInstanceAs (Decidable (s.nanoseconds ≤ t.nanoseconds))

/-- The instant nearest to a count of nanoseconds: outside the limits, the nearer limit. -/
def clamp (nanos : Int) : Instant :=
  if low : nanos < earliestNanos then earliest
  else if high : latestNanos < nanos then latest
  else ⟨nanos, by omega, by omega⟩

/-- The instant nearest to a count of milliseconds. -/
def ofMillis (millis : Int) : Instant := clamp (millis * 1000000)

/-- Whole milliseconds since the epoch, rounded down. -/
def millis (t : Instant) : Int := t.nanoseconds.fdiv 1000000

/-- Whole seconds since the epoch, rounded down. -/
def seconds (t : Instant) : Int := t.nanoseconds.fdiv 1000000000

/-- The nanoseconds of the second that has begun. -/
def subsecond (t : Instant) : Nat := (t.nanoseconds.fmod 1000000000).toNat

/-- The instant of a count of nanoseconds, if it lies between the limits. -/
def ofNanos? (nanos : Int) : Option Instant :=
  if h : earliestNanos ≤ nanos ∧ nanos ≤ latestNanos then some ⟨nanos, h.1, h.2⟩ else none

/-- The instant that lies a span forward. -/
def add? (t : Instant) (s : Span) : Option Instant := ofNanos? (t.nanoseconds + s.nanoseconds)

/-- The instant that lies a span backward. -/
def sub? (t : Instant) (s : Span) : Option Instant := ofNanos? (t.nanoseconds - s.nanoseconds)

/-- The instant a duration later. -/
def after? (t : Instant) (d : Duration) : Option Instant := d.span?.bind t.add?

/-- The instant a duration earlier. -/
def before? (t : Instant) (d : Duration) : Option Instant := d.span?.bind t.sub?

/-- The instant a duration after `start`, or the last one. -/
def deadline (start : Instant) (length : Duration) : Instant := (start.after? length).getD latest

/-- The instant a duration before `now`, or the first one. -/
def cutoff (now : Instant) (age : Duration) : Instant := (now.before? age).getD earliest

/-- Whole milliseconds from `start` to `stop`, the fraction cut off toward zero. -/
def millisBetween (start stop : Instant) : Int :=
  (stop.nanoseconds - start.nanoseconds).tdiv 1000000

theorem le_def {s t : Instant} : s ≤ t ↔ s.nanoseconds ≤ t.nanoseconds := Iff.rfl

end Instant

end ContractFuzz
