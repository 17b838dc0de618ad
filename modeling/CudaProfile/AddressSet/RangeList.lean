import CudaProfile.Address
/-!
# Lists of address ranges

A list of ranges stands for the addresses in any of them. The canonical list of
a set of addresses has no empty range, ascends, and leaves at least one address
between neighbours. Normalizing yields the canonical list; meeting and
subtracting canonical lists yields canonical lists again.
-/

namespace CudaProfile
namespace RangeList

def contains (ranges : List AddressRange) (address : Address) : Bool :=
  ranges.any fun r => r.contains address

/-! ## Normalizing -/

/-- Join the ranges of an ascending list that overlap or touch, starting with a
range that is still open to its right. -/
def coalesceFrom (current : AddressRange) :
    List AddressRange → List AddressRange
  | [] => [current]
  | next :: rest =>
      if current.hi = Interval.maxWord || next.lo ≤ current.hi + 1 then
        coalesceFrom (current.hull next) rest
      else current :: coalesceFrom next rest

def coalesce : List AddressRange → List AddressRange
  | [] => []
  | first :: rest => coalesceFrom first rest

def ascending (ranges : List AddressRange) : List AddressRange :=
  ranges.mergeSort fun a b => a.order b ≠ .gt

/-- The canonical list of the addresses of any list of ranges. -/
def normalize (ranges : List AddressRange) : List AddressRange :=
  coalesce (ascending (ranges.filter fun r => !r.isEmpty))

def union (a b : List AddressRange) : List AddressRange :=
  normalize (a ++ b)

/-! ## Meeting and subtracting -/

/-- What one range and those after it have in common with a list: walk through
both lists, leaving behind the range that ends first. -/
def intersection : List AddressRange → List AddressRange → List AddressRange
  | [], _ => []
  | _ :: _, [] => []
  | a :: as, b :: bs =>
      let common := a.meet b
      let found := if common.isEmpty then [] else [common]
      if a.hi < b.hi then found ++ intersection as (b :: bs)
      else found ++ intersection (a :: as) bs
termination_by a b => a.length + b.length

/-- What is left of a range when the ranges of an ascending list are cut out of
it. -/
def cutOut (current : AddressRange) : List AddressRange → List AddressRange
  | [] => [current]
  | cut :: rest =>
      if cut.hi < current.lo then cutOut current rest
      else if current.hi < cut.lo then [current]
      else
        let before : List AddressRange :=
          if current.lo < cut.lo then [⟨current.lo, cut.lo - 1⟩] else []
        if cut.hi < current.hi then
          before ++ cutOut ⟨cut.hi + 1, current.hi⟩ rest
        else before

def difference (a b : List AddressRange) : List AddressRange :=
  normalize (a.flatMap fun range => cutOut range b)

end RangeList
end CudaProfile
