import CudaProfile.Number.Rounding
import CudaProfile.Order.OrderedMap
import CudaProfile.Time
/-!
# Periodic samples

The values of one hardware counter over time, and series resampled on regular
grids. Between two samples the value lies on the line between them, computed
with 53 significant bits, where each step is rounded to the nearest number.
-/

namespace CudaProfile

inductive SampleKind where
  | count
  | percentage
  | rate
deriving DecidableEq

def SampleKind.all : List SampleKind :=
  [count, percentage, rate]

def SampleKind.text : SampleKind → String
  | count => "count"
  | percentage => "percentage"
  | rate => "rate"

structure PeriodicSeries where
  name : String
  kind : SampleKind
  samples : OrderedMap Time UInt64
deriving DecidableEq

def nanosecondsPerMillisecond : UInt64 :=
  1000000

/-- A number of nanoseconds rounded to whole milliseconds, but at least one. -/
def roundedToMillisecond (nanoseconds : UInt64) : UInt64 :=
  let half := nanosecondsPerMillisecond / 2
  let raised :=
    if nanoseconds > Interval.maxWord - half then Interval.maxWord
    else nanoseconds + half
  max nanosecondsPerMillisecond
    (raised / nanosecondsPerMillisecond * nanosecondsPerMillisecond)

namespace PeriodicSeries

def new (name : String) (kind : SampleKind) : PeriodicSeries :=
  ⟨name, kind, .empty⟩

def add (s : PeriodicSeries) (time : Time) (value : UInt64) : PeriodicSeries :=
  ⟨s.name, s.kind, s.samples.insert time value⟩

def get? (s : PeriodicSeries) (time : Time) : Option UInt64 :=
  s.samples.get? time

def size (s : PeriodicSeries) : Nat :=
  s.samples.size

def interval (s : PeriodicSeries) : TimeInterval :=
  match s.samples.first?, s.samples.last? with
  | some first, some last => ⟨first.1, last.1⟩
  | _, _ => .empty

def rate (s : PeriodicSeries) : UInt64 :=
  if s.size < 2 then 0
  else (s.interval.hi - s.interval.lo) / UInt64.ofNat (s.size - 1)

def defaultRate (s : PeriodicSeries) : UInt64 :=
  roundedToMillisecond s.rate

/-! ## Values between samples -/

def precision : Nat :=
  53

/-- The word nearest to a number; a tie goes to the greater one, and numbers
beyond the words to the last word on their side. -/
def nearestWord (q : Rat) : UInt64 :=
  if q < 0 then 0
  else
    let n := Number.divAway q.num.natAbs q.den
    if n > Interval.maxWord.toNat then Interval.maxWord else UInt64.ofNat n

def interpolate (before after : Time × UInt64) (time : Time) : UInt64 :=
  if before.1 = after.1 then before.2
  else
    let round := Number.roundToBits precision
    let start := round before.2.toNat
    let rise := round (round after.2.toNat - start)
    let offset := round (time - before.1).toNat
    let span := round (after.1 - before.1).toNat
    nearestWord (round (start + round (round (rise * offset) / span)))

/-- The value at a time: that of a sample or, between samples, on the line from
one to the next; before the first and after the last, the value of that one. -/
def valueAt? (s : PeriodicSeries) (time : Time) : Option UInt64 :=
  let before := (s.samples.entries.filter fun e => e.1 ≤ time).getLast?
  let after := s.samples.entries.find? fun e => time ≤ e.1
  match before, after with
  | some before, some after => some (interpolate before after time)
  | some before, none => some before.2
  | none, some after => some after.2
  | none, none => none

/-! ## Resampling -/

/-- The time from one point of a grid to the next, which is never zero. -/
structure GridStep where
  width : UInt64
  positive : 0 < width

def GridStep.ofRate (rate : UInt64) : GridStep :=
  ⟨max 1 rate, UInt64.lt_of_lt_of_le (by decide) (Interval.le_max 1 rate)⟩

/-- The time one step later, if there is such a time and it is not beyond the
last. A sum that is no word any more wraps below what was added to. -/
def nextTime? (last : Time) (step : GridStep) (time : Time) : Option Time :=
  if time + step.width < time then none
  else if time + step.width ≤ last then some (time + step.width)
  else none

theorem toNat_add_of_not_lt {a b : UInt64} (h : ¬a + b < a) :
    (a + b).toNat = a.toNat + b.toNat := by
  have ha := a.toNat_lt
  have hb := b.toNat_lt
  rw [UInt64.lt_iff_toNat_lt, UInt64.toNat_add] at h
  rw [UInt64.toNat_add]
  omega

theorem nextTime?_eq_some_iff {last time next : Time} {step : GridStep} :
    nextTime? last step time = some next ↔
      next.toNat = time.toNat + step.width.toNat ∧ next ≤ last := by
  unfold nextTime?
  split
  · next hwrapped =>
    constructor
    · intro h
      cases h
    · intro h
      have hsum : time + step.width = next := by
        apply UInt64.toNat_inj.mp
        rw [UInt64.toNat_add, ← h.1, Nat.mod_eq_of_lt next.toNat_lt]
      rw [hsum, UInt64.lt_iff_toNat_lt, h.1] at hwrapped
      exact absurd (Nat.le_add_right _ _) (Nat.not_le.mpr hwrapped)
  · next hword =>
    rw [← toNat_add_of_not_lt hword, UInt64.toNat_inj]
    split
    · next hle =>
      rw [Option.some_inj]
      constructor
      · intro h
        exact ⟨h.symm, h ▸ hle⟩
      · intro h
        exact h.1.symm
    · next hbeyond =>
      constructor
      · intro h
        cases h
      · intro h
        exact absurd (h.1 ▸ h.2) hbeyond

theorem sub_lt_sub_of_nextTime? {last time next : Time} {step : GridStep}
    (h : nextTime? last step time = some next) :
    last.toNat - next.toNat < last.toNat - time.toNat := by
  have hnext := nextTime?_eq_some_iff.mp h
  have hlast := UInt64.le_iff_toNat_le.mp hnext.2
  have hstep : 0 < step.width.toNat := UInt64.lt_iff_toNat_lt.mp step.positive
  omega

/-- The times from one on in steps up to the last, after those visited before,
of which the latest comes first. -/
def timesFrom (last : Time) (step : GridStep) (visited : List Time)
    (time : Time) : List Time :=
  match _ : nextTime? last step time with
  | some next => timesFrom last step (time :: visited) next
  | none => (time :: visited).reverse
termination_by last.toNat - time.toNat
decreasing_by
  exact sub_lt_sub_of_nextTime? ‹_›

def gridTimes (interval : TimeInterval) (step : GridStep) : List Time :=
  if interval.isEmpty then []
  else timesFrom interval.hi step [] interval.lo

def resampleOver (s : PeriodicSeries) (interval : TimeInterval)
    (step : GridStep) : PeriodicSeries :=
  let valued := (gridTimes interval step).filterMap fun time =>
    (s.valueAt? time).map fun value => (time, value)
  ⟨s.name, s.kind, .ofAscending valued⟩

def resample (s : PeriodicSeries) (rate : Option UInt64) : PeriodicSeries :=
  s.resampleOver s.interval (.ofRate (rate.getD s.defaultRate))

end PeriodicSeries
end CudaProfile
