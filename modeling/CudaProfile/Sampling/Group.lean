import CudaProfile.Sampling.Periodic
/-!
# Groups of series

The series of several counters, resampled on one grid. The mean of their rates
is taken over a sum of words, and where that sum is no word there is no mean.
-/

namespace CudaProfile

open PeriodicSeries (GridStep)

/-- The sum of two words, if it is a word. A sum that is none wraps below what
was added to. -/
def checkedAdd (a b : UInt64) : Option UInt64 :=
  if a + b < a then none else some (a + b)

def checkedSum (words : List UInt64) : Option UInt64 :=
  words.foldlM checkedAdd 0

structure SeriesGroup where
  series : List PeriodicSeries
deriving DecidableEq

namespace SeriesGroup

def size (g : SeriesGroup) : Nat :=
  g.series.foldr (fun s total => s.size + total) 0

def interval (g : SeriesGroup) : TimeInterval :=
  g.series.foldl (fun hull s => hull.hull s.interval) .empty

def rates (g : SeriesGroup) : List UInt64 :=
  (g.series.map PeriodicSeries.rate).filter fun r => r > 0

def rate? (g : SeriesGroup) : Option UInt64 :=
  if g.rates.isEmpty then some 0
  else
    (checkedSum g.rates).map fun total =>
      total / UInt64.ofNat g.rates.length

def resampleOver (g : SeriesGroup) (step : GridStep) : SeriesGroup :=
  ⟨g.series.map fun s => s.resampleOver g.interval step⟩

/-- All series on one grid over the interval of the group, at the given rate or
the mean rate in whole milliseconds. -/
def resample? (g : SeriesGroup) : Option UInt64 → Option SeriesGroup
  | some rate => some (g.resampleOver (.ofRate rate))
  | none =>
      g.rate?.map fun rate =>
        g.resampleOver (.ofRate (roundedToMillisecond rate))

end SeriesGroup
end CudaProfile
