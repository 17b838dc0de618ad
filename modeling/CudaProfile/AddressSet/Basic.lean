import CudaProfile.AddressSet.Partition
import CudaProfile.Outcome
/-!
# Sets of addresses

A set is kept as bitmaps of the addresses it holds or, when it is complemented,
of those it lacks, so that no operation ever deals with more addresses than
were named. Operations that change the addresses partition them anew; a set
that was received keeps the bitmaps it came with, which may overlap, stand in
any order, or be all clear.
-/

namespace CudaProfile

structure AddressSet where
  bitmaps : List Bitmap
  complemented : Bool
deriving DecidableEq

namespace AddressSet

/-! ## Reading -/

def empty : AddressSet :=
  ⟨[], false⟩

instance : EmptyCollection AddressSet :=
  ⟨empty⟩

def stores (s : AddressSet) (address : Address) : Bool :=
  s.bitmaps.any fun b => b.member address

def contains (s : AddressSet) (address : Address) : Bool :=
  s.stores address != s.complemented

def storedRanges (s : AddressSet) : List AddressRange :=
  RangeList.normalize (s.bitmaps.flatMap fun b => b.runs true)

def ranges (s : AddressSet) : List AddressRange :=
  if s.complemented then
    RangeList.difference [Interval.full] s.storedRanges
  else s.storedRanges

def isEmpty (s : AddressSet) : Bool :=
  s.ranges.isEmpty

/-- The number of addresses in the set, by the numbers of bits set; that of all
addresses, which is no word, is the greatest word. -/
def count (s : AddressSet) : UInt64 :=
  let stored := UInt64.ofNat
    (s.bitmaps.foldr (fun b total => b.count + total) 0)
  if !s.complemented then stored
  else if stored = 0 then Interval.maxWord
  else Interval.maxWord - (stored - 1)

def same (s t : AddressSet) : Bool :=
  s.ranges = t.ranges

def text (s : AddressSet) : String :=
  "\x7b" ++ Text.commaSeparated (s.ranges.map AddressRange.text) ++ "\x7d"

/-! ## Making sets -/

/-- The set of a canonical list of addresses, or its complement. -/
def ofStored (ranges : List AddressRange) (complemented : Bool) : AddressSet :=
  ⟨Partition.partition ranges, complemented⟩

/-- The ranges that are not empty, provided that each fits into a bitmap. -/
def checked (ranges : List AddressRange) : Except Error (List AddressRange) :=
  let named := ranges.filter fun r => !r.isEmpty
  match named.find? fun r => r.width > maxBitmapWidth with
  | some wide => .error (.wideRange wide)
  | none => .ok named

def ofRanges (ranges : List AddressRange) : Except Error AddressSet := do
  let named ← checked ranges
  return ofStored (RangeList.normalize named) false

def ofAddresses (addresses : List Address) : AddressSet :=
  ofStored (RangeList.normalize (addresses.map Interval.point)) false

/-! ## Adding and removing addresses -/

def add (s : AddressSet) (ranges : List AddressRange) : AddressSet :=
  let stored :=
    if s.complemented then
      RangeList.difference s.storedRanges (RangeList.normalize ranges)
    else RangeList.union s.storedRanges ranges
  ofStored stored s.complemented

def remove (s : AddressSet) (ranges : List AddressRange) : AddressSet :=
  let stored :=
    if s.complemented then RangeList.union s.storedRanges ranges
    else RangeList.difference s.storedRanges (RangeList.normalize ranges)
  ofStored stored s.complemented

def insert (s : AddressSet) (address : Address) : AddressSet :=
  s.add [Interval.point address]

def insertRanges (s : AddressSet) (ranges : List AddressRange) :
    Outcome AddressSet :=
  match checked ranges with
  | .error error => .refused s error
  | .ok named => .done (s.add named)

def removeRange (s : AddressSet) (range : AddressRange) : Outcome AddressSet :=
  match checked [range] with
  | .error error => .refused s error
  | .ok named => .done (s.remove named)

/-! ## Combining sets -/

def complement (s : AddressSet) : AddressSet :=
  ⟨s.bitmaps, !s.complemented⟩

def union (s t : AddressSet) : AddressSet :=
  let a := s.storedRanges
  let b := t.storedRanges
  match s.complemented, t.complemented with
  | false, false => ofStored (RangeList.union a b) false
  | false, true => ofStored (RangeList.difference b a) true
  | true, false => ofStored (RangeList.difference a b) true
  | true, true => ofStored (RangeList.intersection a b) true

def intersection (s t : AddressSet) : AddressSet :=
  let a := s.storedRanges
  let b := t.storedRanges
  match s.complemented, t.complemented with
  | false, false => ofStored (RangeList.intersection a b) false
  | false, true => ofStored (RangeList.difference a b) false
  | true, false => ofStored (RangeList.difference b a) false
  | true, true => ofStored (RangeList.union a b) true

def difference (s t : AddressSet) : AddressSet :=
  s.intersection t.complement

def symmetricDifference (s t : AddressSet) : AddressSet :=
  let a := s.storedRanges
  let b := t.storedRanges
  ofStored
    (RangeList.union (RangeList.difference a b) (RangeList.difference b a))
    (s.complemented != t.complemented)

/-! ## Records -/

/-- The records of the bitmaps; a complemented set has none. -/
def toRecords (s : AddressSet) : Except Error (List BitmapRecord) :=
  if s.complemented then .error .complementedSet
  else .ok (s.bitmaps.map Bitmap.toRecord)

def ofRecords (records : List BitmapRecord) : Except BitmapFault AddressSet := do
  let bitmaps ← records.mapM Bitmap.ofRecord
  return ⟨bitmaps, false⟩

end AddressSet
end CudaProfile
