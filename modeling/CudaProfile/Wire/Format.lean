import CudaProfile.Wire.Fault
/-!
# Binary formats

A format writes a value as bytes and reads a value from the front of a byte
string, leaving the rest. Numbers have a fixed width and go lowest byte first;
texts and lists follow their lengths, and the variants of a type their numbers.
-/

namespace CudaProfile

abbrev Bytes := List UInt8

namespace Wire

structure Format (α : Type) where
  put : α → Bytes
  get : Bytes → Except Fault (α × Bytes)

namespace Format

/-! ## Numbers -/

def littleEndian : Nat → Nat → Bytes
  | 0, _ => []
  | width + 1, n => UInt8.ofNat n :: littleEndian width (n / 256)

def ofLittleEndian : Bytes → Nat
  | [] => 0
  | byte :: rest => byte.toNat + 256 * ofLittleEndian rest

def split (fault : Fault) (length : Nat) (bytes : Bytes) :
    Except Fault (Bytes × Bytes) :=
  let taken := bytes.take length
  if taken.length = length then .ok (taken, bytes.drop length)
  else .error fault

def number (width : Nat) : Format Nat where
  put := littleEndian width
  get bytes := do
    let (taken, rest) ← split .endOfBytes width bytes
    return (ofLittleEndian taken, rest)

/-- A format by a one-to-one map of its values to those of another. -/
def through {α β : Type} (f : Format α) (there : α → β) (back : β → α) :
    Format β where
  put b := f.put (back b)
  get bytes := do
    let (a, rest) ← f.get bytes
    return (there a, rest)

def word8 : Format UInt8 :=
  (number 1).through UInt8.ofNat UInt8.toNat

def word32 : Format UInt32 :=
  (number 4).through UInt32.ofNat UInt32.toNat

def word64 : Format UInt64 :=
  (number 8).through UInt64.ofNat UInt64.toNat

def int32 : Format Int32 :=
  word32.through UInt32.toInt32 Int32.toUInt32

def int64 : Format Int64 :=
  word64.through UInt64.toInt64 Int64.toUInt64

def flag : Format Bool where
  put b := word8.put (if b then 1 else 0)
  get bytes := do
    let (byte, rest) ← word8.get bytes
    if byte = 0 then return (false, rest)
    else if byte = 1 then return (true, rest)
    else throw (.badFlag byte)

/-! ## Compound values -/

def pair {α β : Type} (f : Format α) (g : Format β) : Format (α × β) where
  put v := f.put v.1 ++ g.put v.2
  get bytes := do
    let (a, rest) ← f.get bytes
    let (b, rest) ← g.get rest
    return ((a, b), rest)

def optional {α : Type} (f : Format α) : Format (Option α) where
  put
    | none => word8.put 0
    | some a => word8.put 1 ++ f.put a
  get bytes := do
    let (tag, rest) ← word8.get bytes
    if tag = 0 then return (none, rest)
    else if tag = 1 then
      let (a, rest) ← f.get rest
      return (some a, rest)
    else throw (.badTag tag)

def getMany {α : Type} (f : Format α) :
    Nat → Bytes → Except Fault (List α × Bytes)
  | 0, bytes => .ok ([], bytes)
  | count + 1, bytes => do
      let (a, rest) ← f.get bytes
      let (more, rest) ← getMany f count rest
      return (a :: more, rest)

def list {α : Type} (f : Format α) : Format (List α) where
  put values := word64.put (UInt64.ofNat values.length) ++ values.flatMap f.put
  get bytes := do
    let (count, rest) ← word64.get bytes
    getMany f count.toNat rest

def bytes : Format Bytes where
  put content := word64.put (UInt64.ofNat content.length) ++ content
  get bytes := do
    let (count, rest) ← word64.get bytes
    split .endOfBytes count.toNat rest

def text : Format String where
  put content := bytes.put (Utf8.encode content)
  get bytes := do
    let (count, rest) ← word64.get bytes
    let (content, rest) ← split .endOfText count.toNat rest
    match Utf8.decode? content with
    | some decoded => return (decoded, rest)
    | none => throw (.badText ((Utf8.fault? content).getD ⟨0, none⟩))

/-- The values of a list, by their places in it. -/
def enumeration {α : Type} [DecidableEq α] (all : List α) : Format α where
  put a := word32.put (UInt32.ofNat (all.idxOf a))
  get bytes := do
    let (index, rest) ← word32.get bytes
    match all[index.toNat]? with
    | some a => return (a, rest)
    | none => throw (.badVariant index all.length)

/-- The values of a type with a number of variants, each after its number. -/
def variants {α : Type} (count : Nat) (index : α → Nat) (put : α → Bytes)
    (get : Nat → Bytes → Except Fault (α × Bytes)) : Format α where
  put a := word32.put (UInt32.ofNat (index a)) ++ put a
  get bytes := do
    let (found, rest) ← word32.get bytes
    if found.toNat < count then get found.toNat rest
    else throw (.badVariant found count)

def getAs {α β : Type} (f : Format α) (variant : α → β) (bytes : Bytes) :
    Except Fault (β × Bytes) := do
  let (a, rest) ← f.get bytes
  return (variant a, rest)

/-! ## Whole byte strings -/

def decode {α : Type} (f : Format α) (bytes : Bytes) : Except Fault α := do
  let (a, rest) ← f.get bytes
  if rest.isEmpty then return a
  else throw .remainingBytes

end Format
end Wire
end CudaProfile
