import FederatedQuery.Time.Printer

/-!
# Ranges of time

A range holds its start and not its end. A range that ends before it starts is empty;
`TimeRange.of?` does not build such a range, though one may be read from a document.

## Main definitions

* `TimeRange.contains`: membership of an instant.
* `TimeRange.intersect?`: the common part of two ranges, if there is one.
* `TimeRange.interval`: the text `start/end`, with milliseconds.
-/

namespace FederatedQuery

/-- The instants from `start` up to but not including `stop`. -/
structure TimeRange where
  start : Instant
  stop : Instant
  deriving DecidableEq

namespace TimeRange

/-- The range from `start` to `stop`, unless it ends before it starts. -/
def of? (start stop : Instant) : Option TimeRange :=
  if stop < start then none else some ⟨start, stop⟩

/-- Whether an instant lies in the range. -/
def contains (r : TimeRange) (t : Instant) : Bool :=
  decide (r.start ≤ t) && decide (t < r.stop)

theorem contains_iff {r : TimeRange} {t : Instant} :
    r.contains t ↔ r.start ≤ t ∧ t < r.stop := by
  rw [contains, Bool.and_eq_true, decide_eq_true_iff, decide_eq_true_iff]

/-- The common part of two ranges, if it is not empty. -/
def intersect? (r s : TimeRange) : Option TimeRange :=
  let start := max r.start s.start
  let stop := min r.stop s.stop
  if start < stop then some ⟨start, stop⟩ else none

/-- The range as an interval text. -/
def interval (r : TimeRange) : String := r.start.millis ++ "/" ++ r.stop.millis

/-- The order of ranges: by start, then by end. -/
def compare (r s : TimeRange) : Ordering :=
  (r.start.compare s.start).then (r.stop.compare s.stop)

end TimeRange

end FederatedQuery
