import CudaProfile.AddressSet.Record
import CudaProfile.Text.Utf8
/-!
# Faults of encoded records

Why a byte string is not the encoding of a value. The first fault in reading
order counts.
-/

namespace CudaProfile
namespace Wire

inductive Fault where
  /-- A number, a flag or a tag goes past the end. -/
  | endOfBytes
  /-- The bytes of a text go past the end. -/
  | endOfText
  | remainingBytes
  | badFlag (found : UInt8)
  | badTag (found : UInt8)
  | badVariant (found : UInt32) (count : Nat)
  | badText (fault : Utf8.Fault)
  | badBitmap (fault : BitmapFault)
deriving DecidableEq

def Fault.message : Fault → String
  | endOfBytes => "io error: unexpected end of file"
  | endOfText => "io error: "
  | remainingBytes => "Slice had bytes remaining after deserialization"
  | badFlag found =>
      "invalid u8 while decoding bool, expected 0 or 1, found " ++
        toString found
  | badTag found => "tag for enum is not valid, found " ++ toString found
  | badVariant found count =>
      "invalid value: integer `" ++ toString found ++
        "`, expected variant index 0 <= i < " ++ toString count
  | badText fault => "string is not valid utf8: " ++ fault.message
  | badBitmap fault => "malformed message: " ++ fault.message

end Wire
end CudaProfile
