import CudaProfile.AddressSet.Spaced
import CudaProfile.Error
/-!
# Bitmaps

A bit for every address of a range, kept as the canonical list of the addresses
whose bit is set: it takes no more room than there are runs of equal bits, and
bitmaps with the same bits are equal. Bitmaps travel with eight bits to a byte,
the first address in the lowest bit, and zeros after the last address.
-/

namespace CudaProfile

/-- A bit for every address of a range, set for those in a canonical list. -/
structure Bitmap where
  range : AddressRange
  ones : List AddressRange
  spaced : RangeList.Spaced range.lo.toNat range.hi.toNat ones
deriving DecidableEq

namespace Bitmap

/-! ## Bits and bytes -/

def byteLength (bits : Nat) : Nat :=
  max 1 ((bits + 7) / 8)

def bitOf (bytes : Array UInt8) (place : Nat) : Bool :=
  (bytes.getD (place / 8) 0).toNat.testBit (place % 8)

/-- The longest ranges of addresses whose bits are set, for a number of bits
from `place` on; bit zero is that of `origin`, and a range may have begun at an
earlier place. -/
def runsFrom (bit : Nat → Bool) (origin : Address) (begun : Option Nat)
    (place : Nat) : Nat → List AddressRange
  | 0 =>
      match begun with
      | none => []
      | some first =>
          [⟨origin + UInt64.ofNat first, origin + UInt64.ofNat place - 1⟩]
  | count + 1 =>
      if bit place then
        runsFrom bit origin (begun.or (some place)) (place + 1) count
      else
        match begun with
        | none => runsFrom bit origin none (place + 1) count
        | some first =>
            ⟨origin + UInt64.ofNat first, origin + UInt64.ofNat place - 1⟩ ::
              runsFrom bit origin none (place + 1) count

/-- The number with the given bits, lowest first. -/
def natOfBits : List Bool → Nat
  | [] => 0
  | bit :: rest => bit.toNat + 2 * natOfBits rest

def byteFrom (start : Nat) (ones : List AddressRange) : UInt8 :=
  let near := ones.takeWhile fun r => r.lo.toNat < start + 8
  UInt8.ofNat (natOfBits ((List.range 8).map fun i =>
    near.any fun r => r.lo.toNat ≤ start + i && start + i ≤ r.hi.toNat))

def bytesFrom (start : Nat) (ones : List AddressRange) : Nat → List UInt8
  | 0 => []
  | count + 1 =>
      let later := ones.dropWhile fun r => r.hi.toNat < start
      byteFrom start later :: bytesFrom (start + 8) later count

theorem length_bytesFrom (start : Nat) (ones : List AddressRange)
    (count : Nat) : (bytesFrom start ones count).length = count := by
  induction count generalizing start ones with
  | zero =>
      rfl
  | succ count ih =>
      simp [bytesFrom, ih]

/-! ## Making bitmaps -/

def ofRanges (range : AddressRange) (ranges : List AddressRange) : Bitmap :=
  ⟨range, RangeList.normalize (ranges.map range.meet),
    RangeList.spaced_normalize_meet range ranges⟩

def ofBits (range : AddressRange) (bit : Nat → Bool) : Bitmap :=
  ofRanges range (runsFrom bit range.lo none 0 range.size)

/-- A bitmap without any address set, over a range that is neither empty nor
too wide. -/
def new (range : AddressRange) : Except Error Bitmap :=
  if range.isEmpty then .error .emptyBitmap
  else if range.width > maxBitmapWidth then .error (.wideBitmap range)
  else .ok (ofRanges range [])

/-! ## Single bits -/

def member (b : Bitmap) (address : Address) : Bool :=
  RangeList.contains b.ones address

def get (b : Bitmap) (address : Address) : Except Error Bool :=
  if b.range.contains address then .ok (b.member address)
  else .error (.outsideBitmap address b.range)

def set (b : Bitmap) (address : Address) (value : Bool) :
    Except Error Bitmap :=
  let point := Interval.point address
  if b.range.contains address then
    .ok (ofRanges b.range
      (if value then point :: b.ones
      else RangeList.difference b.ones [point]))
  else .error (.outsideBitmap address b.range)

def count (b : Bitmap) : Nat :=
  b.ones.foldr (fun r total => Interval.size r + total) 0

/-- The longest ranges of addresses whose bit has a value. -/
def runs (b : Bitmap) (value : Bool) : List AddressRange :=
  if value then b.ones else RangeList.difference [b.range] b.ones

/-! ## Records -/

def toRecord (b : Bitmap) : BitmapRecord :=
  ⟨b.range.toHalfOpen,
    bytesFrom b.range.lo.toNat b.ones (byteLength b.range.size)⟩

/-- The bitmap of a record. Its bits after the last address do not count. -/
def ofRecord (record : BitmapRecord) : Except BitmapFault Bitmap :=
  let range := Interval.ofHalfOpen record.range
  let expected := byteLength range.size
  if record.range.start = record.range.stop || range.isEmpty then
    .error (.emptyRange record.range)
  else if range.width > maxBitmapWidth then .error (.tooWide range)
  else if record.data.length ≠ expected then
    .error (.wrongSize range record.data.length expected)
  else .ok (ofBits range (bitOf record.data.toArray))

end Bitmap
end CudaProfile
