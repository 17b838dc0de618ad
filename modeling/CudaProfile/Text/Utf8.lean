/-!
# Faults in UTF-8 text

Where a byte string stops being UTF-8. The bytes are read one at a time; after
a leading byte there are bounds for the next byte, which exclude overlong
forms, surrogates and numbers beyond the last character.
-/

namespace CudaProfile
namespace Utf8

/-- The first fault in a byte string: the number of bytes before the character
at fault and, unless the text just ends too early, how many of its bytes do
not belong to any character. -/
structure Fault where
  index : Nat
  length : Option Nat
deriving DecidableEq

def Fault.message (fault : Fault) : String :=
  match fault.length with
  | some length =>
      "invalid utf-8 sequence of " ++ toString length ++ " bytes from index " ++
        toString fault.index
  | none => "incomplete utf-8 byte sequence from index " ++ toString fault.index

/-- What may follow a leading byte: the number of further bytes and the bounds
of the first of them. -/
structure Following where
  count : Nat
  least : UInt8
  greatest : UInt8

def following? (lead : UInt8) : Option Following :=
  if 0xC2 ≤ lead && lead ≤ 0xDF then some ⟨1, 0x80, 0xBF⟩
  else if lead = 0xE0 then some ⟨2, 0xA0, 0xBF⟩
  else if lead = 0xED then some ⟨2, 0x80, 0x9F⟩
  else if 0xE1 ≤ lead && lead ≤ 0xEF then some ⟨2, 0x80, 0xBF⟩
  else if lead = 0xF0 then some ⟨3, 0x90, 0xBF⟩
  else if 0xF1 ≤ lead && lead ≤ 0xF3 then some ⟨3, 0x80, 0xBF⟩
  else if lead = 0xF4 then some ⟨3, 0x80, 0x8F⟩
  else none

/-- The first fault in the bytes from `index` on, while the character that
starts at `start` still waits for what follows. -/
def faultFrom (index start : Nat) (awaited : Following) :
    List UInt8 → Option Fault
  | [] => if awaited.count = 0 then none else some ⟨start, none⟩
  | byte :: rest =>
      if awaited.count = 0 then
        if byte < 0x80 then faultFrom (index + 1) (index + 1) awaited rest
        else
          match following? byte with
          | some next => faultFrom (index + 1) index next rest
          | none => some ⟨index, some 1⟩
      else if awaited.least ≤ byte && byte ≤ awaited.greatest then
        faultFrom (index + 1) start ⟨awaited.count - 1, 0x80, 0xBF⟩ rest
      else some ⟨start, some (index - start)⟩

def fault? (bytes : List UInt8) : Option Fault :=
  faultFrom 0 0 ⟨0, 0x80, 0xBF⟩ bytes

def encode (text : String) : List UInt8 :=
  text.toUTF8.data.toList

def decode? (bytes : List UInt8) : Option String :=
  String.fromUTF8? ⟨bytes.toArray⟩

end Utf8
end CudaProfile
