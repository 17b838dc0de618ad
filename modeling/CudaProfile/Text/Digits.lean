/-!
# Digits and padding

Texts of numbers in base sixteen, padding to a width, and lists of texts.
-/

namespace CudaProfile
namespace Text

def hex (n : Nat) : String :=
  String.ofList (Nat.toDigits 16 n)

def hexLiteral (n : Nat) : String :=
  "0x" ++ hex n

def padLeft (width : Nat) (fill : Char) (text : String) : String :=
  String.ofList (List.replicate (width - text.length) fill) ++ text

def zeroPadded (width n : Nat) : String :=
  padLeft width '0' (toString n)

def bytesHex (bytes : List UInt8) : String :=
  String.join (bytes.map fun b => padLeft 2 '0' (hex b.toNat))

def commaSeparated (texts : List String) : String :=
  ", ".intercalate texts

end Text
end CudaProfile
