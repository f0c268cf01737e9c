import FederatedQuery.Time.Period
import Mathlib.Order.Bounds.Defs

/-!
# Buckets of time

A period cuts time into buckets that start at its multiples since 1970-01-01T00:00:00Z. The bucket
of an instant starts at the last multiple that is not after the instant, also before 1970, where a
quotient that is rounded towards zero would give the next one. As long as its ends are instants, it
is as long as the period and holds the instants with the same last multiple and no others. So
different buckets have no instant in common, and each bucket ends where the next one starts.

## Main definitions

* `Period.floor`: the last multiple of a period that is not after an instant.
* `Period.Spans`: the range of one period from a given second on.
* `Period.Fits`: the period from a given second on starts and ends with an instant.

## Main results

* `Period.isGreatest_floor`: the last multiple.
* `Period.bucketContaining_eq`: the bucket of an instant.
* `Period.Spans.contains_iff`: the instants in a bucket.
* `Period.buckets_partition`: buckets partition time.
-/

namespace FederatedQuery

namespace Instant

variable {n : Int} {t : Instant}

theorem ofSecond?_eq_some_iff : ofSecond? n 0 = some t ↔ t.second = n ∧ t.nano = 0 := by
  unfold ofSecond?
  split
  · next h =>
    rw [Option.some.injEq]
    constructor
    · rintro rfl
      exact ⟨rfl, rfl⟩
    · rintro ⟨rfl, hnano⟩
      obtain ⟨second, nano, _, _, _⟩ := t
      cases hnano
      rfl
  · next h =>
    refine iff_of_false nofun fun ⟨hn, hnano⟩ => h ?_
    exact ⟨by decide, hn ▸ t.second_ge, hn ▸ t.second_le⟩

end Instant

namespace Period

variable {p : Period} {s t : Instant} {n : Int} {r : TimeRange}

/-! ### Multiples of a period -/

/-- The last multiple of the period, in seconds since the start of 1970, that is not after the
instant. -/
def floor (p : Period) (t : Instant) : Int := p.seconds * (t.second / p.seconds)

theorem seconds_cast_pos (p : Period) : (0 : Int) < p.seconds := Int.natCast_pos.2 p.seconds_pos

theorem dvd_floor (p : Period) (t : Instant) : (p.seconds : Int) ∣ p.floor t :=
  Int.dvd_mul_right _ _

theorem sub_emod_eq_floor (p : Period) (t : Instant) :
    t.second - t.second % p.seconds = p.floor t := by
  have hdiv := Int.mul_ediv_add_emod t.second p.seconds
  unfold floor
  omega

/-- The instants of which a multiple is the last one. -/
theorem floor_eq_iff (hn : (p.seconds : Int) ∣ n) :
    p.floor t = n ↔ n ≤ t.second ∧ t.second < n + p.seconds := by
  obtain ⟨k, rfl⟩ := hn
  rw [floor, Int.mul_eq_mul_left_iff (Int.ne_of_gt p.seconds_cast_pos),
    Int.ediv_eq_iff_of_pos p.seconds_cast_pos, Int.mul_comm k]

/-- **The last multiple** of the period that is not after the instant. -/
theorem isGreatest_floor (p : Period) (t : Instant) :
    IsGreatest {n : Int | (p.seconds : Int) ∣ n ∧ n ≤ t.second} (p.floor t) := by
  refine ⟨⟨p.dvd_floor t, ((floor_eq_iff (p.dvd_floor t)).1 rfl).1⟩, ?_⟩
  rintro _ ⟨⟨k, rfl⟩, hk⟩
  have hquotient : k ≤ t.second / p.seconds := by
    rwa [Int.le_ediv_iff_mul_le p.seconds_cast_pos, Int.mul_comm]
  exact Int.mul_le_mul_of_nonneg_left hquotient (Int.le_of_lt p.seconds_cast_pos)

/-! ### Buckets -/

/-- The range starts so many seconds after the start of 1970 and ends one period later. -/
def Spans (p : Period) (n : Int) (r : TimeRange) : Prop :=
  Instant.ofSecond? n 0 = some r.start ∧ Instant.ofSecond? (n + p.seconds) 0 = some r.stop

/-- The period that starts so many seconds after the start of 1970 starts and ends with an
instant. -/
def Fits (p : Period) (n : Int) : Prop :=
  (Instant.ofSecond? n 0).isSome ∧ (Instant.ofSecond? (n + p.seconds) 0).isSome

instance (p : Period) (n : Int) : Decidable (p.Fits n) := inferInstanceAs (Decidable (_ ∧ _))

theorem Fits.exists_spans (h : p.Fits n) : ∃ r, p.Spans n r := by
  obtain ⟨start, hstart⟩ := Option.isSome_iff_exists.1 h.1
  obtain ⟨stop, hstop⟩ := Option.isSome_iff_exists.1 h.2
  exact ⟨⟨start, stop⟩, hstart, hstop⟩

/-- The bucket that starts with an instant at a whole second. -/
theorem bucketAt_eq (h : p.Spans n r) : p.bucketAt r.start = r := by
  obtain ⟨hsecond, hnano⟩ := Instant.ofSecond?_eq_some_iff.1 h.1
  have hstop : r.start.addSeconds? p.seconds = some r.stop := by
    rw [Instant.addSeconds?, hsecond, hnano, if_neg (Nat.ne_of_gt p.seconds_pos)]
    exact h.2
  rw [bucketAt, hstop]
  rfl

/-- **The bucket of an instant** starts at the last multiple. -/
theorem bucketContaining_eq (h : p.Spans (p.floor t) r) : p.bucketContaining t = r := by
  rw [bucketContaining, sub_emod_eq_floor, h.1]
  exact bucketAt_eq h

namespace Spans

/-- **The instants in a bucket** are those with the same last multiple. -/
theorem contains_iff (h : p.Spans n r) (hn : (p.seconds : Int) ∣ n) :
    r.contains t ↔ p.floor t = n := by
  obtain ⟨hstart, hstartNano⟩ := Instant.ofSecond?_eq_some_iff.1 h.1
  obtain ⟨hstop, hstopNano⟩ := Instant.ofSecond?_eq_some_iff.1 h.2
  have hnano := t.nano_lt
  rw [TimeRange.contains_iff, floor_eq_iff hn, Instant.le_iff, Instant.lt_iff]
  simp only [Instant.key, hstart, hstartNano, hstop, hstopNano]
  omega

theorem contains (h : p.Spans (p.floor t) r) : r.contains t :=
  (h.contains_iff (p.dvd_floor t)).2 rfl

/-- Ranges that start at different multiples have no instant in common. -/
theorem not_contains_both {m : Int} {q : TimeRange} (hq : p.Spans m q) (hr : p.Spans n r)
    (hm : (p.seconds : Int) ∣ m) (hn : (p.seconds : Int) ∣ n) (hne : q ≠ r) (t : Instant) :
    ¬(q.contains t ∧ r.contains t) := by
  rintro ⟨hqt, hrt⟩
  have hmn : m = n := ((hq.contains_iff hm).1 hqt).symm.trans ((hr.contains_iff hn).1 hrt)
  subst hmn
  refine hne ?_
  rw [← bucketAt_eq hq, ← bucketAt_eq hr, Option.some.inj (hq.1.symm.trans hr.1)]

/-- A bucket ends at the multiple that follows the one at which it starts. -/
theorem floor_stop (h : p.Spans n r) (hn : (p.seconds : Int) ∣ n) :
    p.floor r.stop = n + p.seconds := by
  rw [floor_eq_iff (Int.dvd_add hn (Int.dvd_refl _)),
    (Instant.ofSecond?_eq_some_iff.1 h.2).1]
  have hpos := p.seconds_cast_pos
  omega

end Spans

/-- **Buckets partition time.** The bucket of an instant whose ends are instants starts at the last
multiple of the period that is not after the instant, is exactly as long as the period, and holds
this instant and all others with the same last multiple. Two instants have the same bucket if and
only if their last multiples are the same, and different buckets have no instant in common. Where a
bucket ends, the bucket of the next multiple starts, if it ends with an instant as well. -/
theorem buckets_partition (p : Period) :
    (∀ t : Instant,
      IsGreatest {n : Int | (p.seconds : Int) ∣ n ∧ n ≤ t.second} (p.floor t)) ∧
    (∀ t : Instant, p.Fits (p.floor t) →
      ((p.bucketContaining t).start.second = p.floor t ∧
        (p.bucketContaining t).start.nano = 0) ∧
      ((p.bucketContaining t).stop.second = p.floor t + p.seconds ∧
        (p.bucketContaining t).stop.nano = 0) ∧
      (p.bucketContaining t).contains t ∧
      ∀ u : Instant, (p.bucketContaining t).contains u ↔ p.floor u = p.floor t) ∧
    (∀ s t : Instant, p.Fits (p.floor s) → p.Fits (p.floor t) →
      (p.bucketContaining s = p.bucketContaining t ↔ p.floor s = p.floor t) ∧
      (p.bucketContaining s ≠ p.bucketContaining t →
        ∀ u : Instant, ¬((p.bucketContaining s).contains u ∧ (p.bucketContaining t).contains u))) ∧
    ∀ t : Instant, p.Fits (p.floor t) → p.Fits (p.floor t + p.seconds) →
      p.floor (p.bucketContaining t).stop = p.floor t + p.seconds ∧
      p.bucketAt (p.bucketContaining t).stop = p.bucketContaining (p.bucketContaining t).stop := by
  refine ⟨p.isGreatest_floor, fun t ht => ?_, fun s t hs ht => ?_, fun t ht hnext => ?_⟩
  · obtain ⟨r, hr⟩ := ht.exists_spans
    rw [bucketContaining_eq hr]
    exact ⟨Instant.ofSecond?_eq_some_iff.1 hr.1, Instant.ofSecond?_eq_some_iff.1 hr.2, hr.contains,
      fun u => hr.contains_iff (p.dvd_floor t)⟩
  · obtain ⟨q, hq⟩ := hs.exists_spans
    obtain ⟨r, hr⟩ := ht.exists_spans
    rw [bucketContaining_eq hq, bucketContaining_eq hr]
    refine ⟨⟨fun heq => ?_, fun heq => ?_⟩, hq.not_contains_both hr (p.dvd_floor s) (p.dvd_floor t)⟩
    · exact (hr.contains_iff (p.dvd_floor t)).1 (heq ▸ hq.contains)
    · rw [← bucketContaining_eq hq]
      exact bucketContaining_eq (heq ▸ hr)
  · obtain ⟨q, hq⟩ := ht.exists_spans
    obtain ⟨r, hr⟩ := hnext.exists_spans
    rw [bucketContaining_eq hq]
    have hfloor := hq.floor_stop (p.dvd_floor t)
    have hstop : q.stop = r.start := Option.some.inj (hq.2.symm.trans hr.1)
    refine ⟨hfloor, ?_⟩
    rw [bucketContaining_eq (hfloor.symm ▸ hr), hstop]
    exact bucketAt_eq hr

end Period

namespace Sample

/-- One hour. -/
def hour : Period := ⟨"PT1H", 3600, by decide, by decide⟩

/-- Half a second before the start of 1970. -/
def newYearsEve : Instant := ⟨-1, 500000000, by decide, by decide, by decide⟩

end Sample

open Sample in
/-- The last hour of 1969 holds its last half second, and the first hour of 1970 starts where it
ends. -/
theorem Period.buckets_partition_newYearsEve :
    hour.Fits (hour.floor newYearsEve) ∧ hour.Fits (hour.floor newYearsEve + hour.seconds) ∧
      hour.Fits (hour.floor .epoch) ∧
      (hour.bucketContaining newYearsEve).start.second = -3600 ∧
      (hour.bucketContaining newYearsEve).stop.second = 0 ∧
      (hour.bucketContaining newYearsEve).contains newYearsEve ∧
      (∀ u : Instant, ¬((hour.bucketContaining newYearsEve).contains u ∧
        (hour.bucketContaining .epoch).contains u)) ∧
      hour.bucketAt (hour.bucketContaining newYearsEve).stop = hour.bucketContaining .epoch := by
  have hfits : hour.Fits (hour.floor newYearsEve) := by decide
  have hnext : hour.Fits (hour.floor newYearsEve + hour.seconds) := by decide
  have hepoch : hour.Fits (hour.floor .epoch) := by decide
  obtain ⟨-, hbuckets, hpairs, hchain⟩ := hour.buckets_partition
  obtain ⟨⟨hstart, -⟩, ⟨hstop, -⟩, hholds, -⟩ := hbuckets newYearsEve hfits
  have hdisjoint := (hpairs newYearsEve .epoch hfits hepoch).2 (by decide)
  exact ⟨hfits, hnext, hepoch, hstart, hstop, hholds, hdisjoint,
    (hchain newYearsEve hfits hnext).2⟩

end FederatedQuery
