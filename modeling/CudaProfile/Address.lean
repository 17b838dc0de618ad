import CudaProfile.Interval
import CudaProfile.Text.Digits
/-!
# Memory addresses

An address is a 64-bit word; stepping past either end of the address space
wraps around.
-/

namespace CudaProfile

abbrev Address := UInt64

abbrev AddressRange := Interval

/-- An address in sixteen hexadecimal digits. -/
def Address.text (a : Address) : String :=
  "0x" ++ Text.padLeft 16 '0' (Text.hex a.toNat)

def AddressRange.text (r : AddressRange) : String :=
  Interval.render Address.text r

end CudaProfile
