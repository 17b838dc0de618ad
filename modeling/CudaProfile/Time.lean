import CudaProfile.Interval
import CudaProfile.Text.Digits
/-!
# Times and durations

A time is a number of nanoseconds since the beginning of 1970, shown as a date
and a time of day in universal time.
-/

namespace CudaProfile

abbrev Time := UInt64

abbrev TimeInterval := Interval

structure Date where
  year : Nat
  month : Nat
  day : Nat
deriving DecidableEq

/-- The date a number of days after the first of January 1970. Years are
counted from the first of March, so that the leap day is the last of its year,
and in cycles of four hundred years. -/
def Date.ofDays (days : Nat) : Date :=
  let shifted := days + 719468
  let cycle := shifted / 146097
  let dayOfCycle := shifted % 146097
  let yearOfCycle :=
    (dayOfCycle - dayOfCycle / 1460 + dayOfCycle / 36524
      - dayOfCycle / 146096) / 365
  let dayOfYear :=
    dayOfCycle - (365 * yearOfCycle + yearOfCycle / 4 - yearOfCycle / 100)
  let monthFromMarch := (5 * dayOfYear + 2) / 153
  let day := dayOfYear - (153 * monthFromMarch + 2) / 5 + 1
  let month :=
    if monthFromMarch < 10 then monthFromMarch + 3 else monthFromMarch - 9
  let year := yearOfCycle + cycle * 400
  ⟨if month ≤ 2 then year + 1 else year, month, day⟩

namespace Time

def first : Time :=
  0

/-- The latest time, at which intervals without a known end stop. -/
def last : Time :=
  Interval.maxWord

def text (t : Time) : String :=
  let seconds := t.toNat / 1000000000
  let date := Date.ofDays (seconds / 86400)
  let ofDay := seconds % 86400
  Text.zeroPadded 4 date.year ++ "/" ++ Text.zeroPadded 2 date.month ++ "/" ++
    Text.zeroPadded 2 date.day ++ " " ++ Text.zeroPadded 2 (ofDay / 3600) ++
    ":" ++ Text.zeroPadded 2 (ofDay / 60 % 60) ++ ":" ++
    Text.zeroPadded 2 (ofDay % 60)

/-- The nanoseconds from one time to another, none if the second is earlier. -/
def elapsed (start stop : Time) : UInt64 :=
  if stop < start then 0 else stop - start

end Time

def TimeInterval.text (i : TimeInterval) : String :=
  Interval.render Time.text i

namespace Duration

/-- A whole number and the given number of decimal places of a fraction,
without the zeros at its end. -/
def decimal (whole fraction places : Nat) : String :=
  let digits := (Text.zeroPadded places fraction).toList
  let kept := (digits.reverse.dropWhile (· = '0')).reverse
  if kept.isEmpty then toString whole
  else toString whole ++ "." ++ String.ofList kept

def text (nanoseconds : UInt64) : String :=
  let n := nanoseconds.toNat
  if n ≥ 1000000000 then decimal (n / 1000000000) (n % 1000000000) 9 ++ "s"
  else if n ≥ 1000000 then decimal (n / 1000000) (n % 1000000) 6 ++ "ms"
  else if n ≥ 1000 then decimal (n / 1000) (n % 1000) 3 ++ "µs"
  else decimal n 0 0 ++ "ns"

end Duration
end CudaProfile
