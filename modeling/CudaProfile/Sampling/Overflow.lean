import CudaProfile.Address
import CudaProfile.Order.OrderedMap
/-!
# Overflow samples

The number of events that one hardware counter saw at each program counter.
-/

namespace CudaProfile

structure OverflowSeries where
  name : String
  counts : OrderedMap Address UInt64
deriving DecidableEq

namespace OverflowSeries

def new (name : String) : OverflowSeries :=
  ⟨name, .empty⟩

def count (s : OverflowSeries) (address : Address) : UInt64 :=
  (s.counts.get? address).getD 0

def add (s : OverflowSeries) (address : Address) (events : UInt64) :
    OverflowSeries :=
  ⟨s.name, s.counts.insert address (s.count address + events)⟩

def total (s : OverflowSeries) : UInt64 :=
  s.counts.values.foldr (fun n total => n + total) 0

def range (s : OverflowSeries) : AddressRange :=
  match s.counts.first?, s.counts.last? with
  | some first, some last => ⟨first.1, last.1⟩
  | _, _ => .empty

def within (s : OverflowSeries) (range : AddressRange) :
    List (Address × UInt64) :=
  s.counts.entries.filter fun e => range.contains e.1

end OverflowSeries
end CudaProfile
