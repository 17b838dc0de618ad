import CudaProfile.AddressSet.Basic
import CudaProfile.Order.OrderedMap
/-!
# Counts of observed addresses
-/

namespace CudaProfile

/-- How often each address was observed. -/
structure AddressBuffer where
  counts : OrderedMap Address UInt64
deriving DecidableEq

namespace AddressBuffer

def empty : AddressBuffer :=
  ⟨.empty⟩

instance : EmptyCollection AddressBuffer :=
  ⟨empty⟩

def count (b : AddressBuffer) (address : Address) : UInt64 :=
  (b.counts.get? address).getD 0

def add (b : AddressBuffer) (address : Address) (number : UInt64) :
    AddressBuffer :=
  ⟨b.counts.insert address (b.count address + number)⟩

def observe (b : AddressBuffer) (address : Address) : AddressBuffer :=
  b.add address 1

def merge (b other : AddressBuffer) : AddressBuffer :=
  other.counts.entries.foldl (fun b e => b.add e.1 e.2) b

def total (b : AddressBuffer) : UInt64 :=
  b.counts.values.foldr (fun n total => n + total) 0

def toAddressSet (b : AddressBuffer) : AddressSet :=
  .ofAddresses b.counts.keys

end AddressBuffer
end CudaProfile
