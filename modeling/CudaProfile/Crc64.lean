/-!
# The 64-bit cyclic redundancy check

The ECMA-182 polynomial, most significant bit first, starting from zero and
without a final change. A byte at a time goes through a table of the effect of
each leading byte.
-/

namespace CudaProfile
namespace Crc64

/-- The generator polynomial without its leading term. -/
def polynomial : UInt64 :=
  0x42F0E1EBA9EA3693

/-- Shift a remainder by one bit, subtracting the polynomial when a one is
shifted out. -/
def shiftBit (crc : UInt64) : UInt64 :=
  if crc &&& 0x8000000000000000 ≠ 0 then (crc <<< 1) ^^^ polynomial
  else crc <<< 1

def shiftBits : Nat → UInt64 → UInt64
  | 0, crc => crc
  | n + 1, crc => shiftBits n (shiftBit crc)

def table : Vector UInt64 256 :=
  Vector.ofFn fun i => shiftBits 8 (UInt64.ofNat i.val <<< 56)

def step (crc : UInt64) (byte : UInt8) : UInt64 :=
  let index := (crc >>> 56).toUInt8 ^^^ byte
  (crc <<< 8) ^^^ table.get ⟨index.toNat, index.toNat_lt⟩

def update (crc : UInt64) (bytes : List UInt8) : UInt64 :=
  bytes.foldl step crc

def checksum (bytes : List UInt8) : UInt64 :=
  update 0 bytes

theorem update_append (crc : UInt64) (first second : List UInt8) :
    update crc (first ++ second) = update (update crc first) second := by
  simp [update]

end Crc64
end CudaProfile
