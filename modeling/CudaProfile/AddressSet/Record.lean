import CudaProfile.Address
/-!
# Records of bitmaps

The form in which a bitmap travels: a half-open range of addresses and the
bits packed into bytes, and what can be wrong with such a record.
-/

namespace CudaProfile

def maxBitmapWidth : UInt64 :=
  0x100000000

/-- A bitmap as it travels. Bit `i` is bit `i % 8` of byte `i / 8`. -/
structure BitmapRecord where
  range : Interval.HalfOpen
  data : List UInt8
deriving DecidableEq

inductive BitmapFault where
  | emptyRange (range : Interval.HalfOpen)
  | tooWide (range : AddressRange)
  | wrongSize (range : AddressRange) (found expected : Nat)
deriving DecidableEq

def exceedsBitmap (range : AddressRange) : String :=
  range.text ++ " exceeds " ++ toString maxBitmapWidth ++ " addresses"

def BitmapFault.message : BitmapFault → String
  | emptyRange range =>
      "address bitmap over empty half-open range [" ++
        Text.hexLiteral range.start.toNat ++ ", " ++
        Text.hexLiteral range.stop.toNat ++ ")"
  | tooWide range => "address bitmap over " ++ exceedsBitmap range
  | wrongSize range found expected =>
      "address bitmap over " ++ range.text ++ " carries " ++ toString found ++
        " bytes, expected " ++ toString expected

end CudaProfile
