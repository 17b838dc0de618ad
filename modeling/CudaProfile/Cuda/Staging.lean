import CudaProfile.Cuda.Format
/-!
# Staging of records

A collector gathers records until they are worth a blob.
-/

namespace CudaProfile
namespace Cuda

structure Staging where
  header : BlobHeader
  capacity : Nat
  records : Array Record
  stackTraces : Array Address
deriving DecidableEq

namespace Staging

def defaultCapacity : Nat :=
  1024

def new (header : BlobHeader) (capacity : Nat) : Staging :=
  ⟨header, max capacity 1, #[], #[]⟩

def data (s : Staging) : Data :=
  ⟨s.records.toList, s.stackTraces.toList⟩

def size (s : Staging) : Nat :=
  s.records.size

def isEmpty (s : Staging) : Bool :=
  s.records.isEmpty

def isFull (s : Staging) : Bool :=
  s.capacity ≤ s.size

def push (s : Staging) (r : Record) : Staging :=
  { s with records := s.records.push r }

/-- Add a request with the frames of its stack trace, to which it is made to
refer. -/
def pushRequest (s : Staging) (r : Request) (frames : List Address) :
    Staging :=
  let callSite := UInt32.ofNat s.stackTraces.size
  let trace : List Address := (frames.filter fun pc => pc ≠ 0) ++ [0]
  { s with
    records := s.records.push (.request { r with callSite := callSite })
    stackTraces := s.stackTraces ++ trace }

/-- The header of a blob of records: its time is that of the records, if they
have any. -/
def headerFor (header : BlobHeader) (records : List Record) : BlobHeader :=
  let span := Record.span records
  if span.isEmpty then header else { header with time := span.toHalfOpen }

def flush (s : Staging) : Staging × Option Blob :=
  let blob :=
    if s.isEmpty then none
    else some (s.data.toBlob (headerFor s.header s.data.records))
  ({ s with records := #[], stackTraces := #[] }, blob)

end Staging
end Cuda
end CudaProfile
