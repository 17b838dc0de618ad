import CudaProfile.Component.Basic
import CudaProfile.Cuda.Format
/-!
# The address aggregator

Counts the program counters in the CUDA data that flows past, and sends the
counts when all threads have finished.
-/

namespace CudaProfile

def AddressBuffer.observeAll (b : AddressBuffer) (addresses : List Address) :
    AddressBuffer :=
  addresses.foldl observe b

structure AddressAggregator where
  buffer : AddressBuffer
deriving DecidableEq

namespace AddressAggregator

def empty : AddressAggregator :=
  ⟨.empty⟩

/-- A blob flows past; what is not CUDA data is not counted. -/
def pass (s : AddressAggregator) (blob : Blob) : Reply AddressAggregator :=
  if blob.header.id ≠ Cuda.collectorId then .send s [.data blob]
  else
    match Cuda.Data.ofBlob blob with
    | .error error => .ofOutcome (.refused s error)
    | .ok d => .send ⟨s.buffer.observeAll d.pcs⟩ [.data blob]

instance : Component AddressAggregator where
  name _ := "AddressAggregator"
  accepts _
    | .data _ | .threadsFinished _ => true
    | _ => false
  handle s
    | .data blob => s.pass blob
    | .threadsFinished true =>
        .send s [.addressBuffer s.buffer, .threadsFinished true]
    | .threadsFinished false => .send s [.threadsFinished false]
    | _ => .quiet s

end AddressAggregator
end CudaProfile
