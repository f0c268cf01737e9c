import FederatedQuery.Time.Calendar

/-!
# Instants

An instant counts whole seconds since 1970-01-01T00:00:00Z and the nanoseconds after
them. The nanoseconds may go up to two seconds: the second half is the leap second that
follows the given second, written with `:60`. Instants are ordered by second first, so
a leap second lies after its second and before the next.

The dates of instants run from the year -262143 to the year 262142.

## Main definitions

* `Instant`: the type, with its order.
* `Instant.ofSecond?`: the instant at a given second, if it is in range.
* `Instant.addSeconds?`: the instant some seconds later.
* `Instant.latest`: the last instant.
-/

namespace FederatedQuery

/-- A moment in time. -/
structure Instant where
  /-- Whole seconds since 1970-01-01T00:00:00Z. -/
  second : Int
  /-- Nanoseconds after `second`; from `10^9` on they belong to a leap second. -/
  nano : Nat
  nano_lt : nano < 2000000000
  second_ge : -8334601228800 ≤ second
  second_le : second ≤ 8210266876799
  deriving DecidableEq

namespace Instant

/-- The first second of the first year and the last second of the last year. -/
theorem range_eq :
    (Time.Date.mk (-262143) 1 1).dayNumber * 86400 = -8334601228800 ∧
      (Time.Date.mk 262142 12 31).dayNumber * 86400 + 86399 = 8210266876799 := by decide

/-- The instant at `second` and `nano`, if it is in range. -/
def ofSecond? (second : Int) (nano : Nat) : Option Instant :=
  if h : nano < 2000000000 ∧ -8334601228800 ≤ second ∧ second ≤ 8210266876799 then
    some ⟨second, nano, h.1, h.2.1, h.2.2⟩
  else none

/-- The start of 1970. -/
def epoch : Instant := ⟨0, 0, by decide, by decide, by decide⟩

instance : Inhabited Instant := ⟨epoch⟩

/-- The last instant. -/
def latest : Instant := ⟨8210266876799, 999999999, by decide, by decide, by decide⟩

/-- A number whose order is that of instants. -/
def key (t : Instant) : Int := t.second * 2000000000 + t.nano

/-- The key tells instants apart. -/
theorem key_inj {a b : Instant} (h : a.key = b.key) : a = b := by
  obtain ⟨s, n, hn, _, _⟩ := a
  obtain ⟨s', n', hn', _, _⟩ := b
  simp only [key] at h
  have hs : s = s' := by omega
  have hn : n = n' := by omega
  subst hs hn
  rfl

instance : LT Instant := ⟨fun a b => a.key < b.key⟩

instance : LE Instant := ⟨fun a b => a.key ≤ b.key⟩

instance (a b : Instant) : Decidable (a < b) := inferInstanceAs (Decidable (a.key < b.key))

instance (a b : Instant) : Decidable (a ≤ b) := inferInstanceAs (Decidable (a.key ≤ b.key))

theorem lt_iff {a b : Instant} : a < b ↔ a.key < b.key := Iff.rfl

theorem le_iff {a b : Instant} : a ≤ b ↔ a.key ≤ b.key := Iff.rfl

instance : Max Instant := ⟨fun a b => if a ≤ b then b else a⟩

instance : Min Instant := ⟨fun a b => if a ≤ b then a else b⟩

/-- The comparison of two instants. -/
def compare (a b : Instant) : Ordering := Ord.compare a.key b.key

/-- The instant `seconds` later, for a positive number of seconds; `none` beyond the last
instant. A moment inside a leap second counts as the same moment of the second before. -/
def addSeconds? (t : Instant) (seconds : Nat) : Option Instant :=
  ofSecond? (t.second + seconds)
    (if seconds = 0 then t.nano else t.nano % 1000000000)

end Instant

end FederatedQuery
