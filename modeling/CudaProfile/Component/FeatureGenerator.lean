import CudaProfile.AddressSpaces.Application
import CudaProfile.Component.AddressAggregator
import CudaProfile.Cuda.Features
/-!
# The feature generator

Collects CUDA data, the address spaces and the observed addresses of the
threads under a leaf, and sends what the leaf asks for.
-/

namespace CudaProfile

open Cuda

structure FeatureGenerator where
  application : Application
  buffer : AddressBuffer
  data : PerformanceData
deriving DecidableEq

namespace FeatureGenerator

def empty : FeatureGenerator :=
  ⟨∅, .empty, ∅⟩

/-- A blob arrives; one that is not CUDA data is ignored. Its program counters
are observed even if its records are refused. -/
def receive (s : FeatureGenerator) (blob : Blob) : Reply FeatureGenerator :=
  if blob.header.id ≠ collectorId then .quiet s
  else
    match Data.ofBlob blob with
    | .error error => .ofOutcome (.refused s error)
    | .ok d =>
        let s := { s with buffer := s.buffer.observeAll d.pcs }
        .ofOutcome ((s.data.apply blob).map fun data => { s with data := data })

def sendData (s : FeatureGenerator) (thread : ThreadName) :
    Reply FeatureGenerator :=
  let group := s.application.spaces.groupRecord thread
  let reply : Reply FeatureGenerator :=
    match s.data.reshuffled thread with
    | .ok blobs => .send s (blobs.map Message.data)
    | .error error => .ofOutcome (.refused s error)
  reply.after [.linkedObjectGroup group] []

def sendFeatures (s : FeatureGenerator) (thread : ThreadName) :
    Reply FeatureGenerator :=
  match Features.ofThread s.data thread with
  | .ok vector => .send s [.feature vector]
  | .error error => .ofOutcome (.refused s error)

def ofOutcome (s : FeatureGenerator) (o : Outcome Application) :
    Reply FeatureGenerator :=
  .ofOutcome (o.map fun application => { s with application := application })

instance : Component FeatureGenerator where
  name _ := "CudaFeatureGenerator"
  accepts _
    | .data _ | .initialLinkedObjects _ | .linkedObjectGroup _
    | .loadedLinkedObject _ | .unloadedLinkedObject _ | .symbolTable _
    | .emitAddressBuffer _ | .emitData _ | .emitFeatures _ => true
    | _ => false
  handle s
    | .data blob => s.receive blob
    | .initialLinkedObjects groups =>
        .quiet
          { s with application := groups.foldl .applyGroup s.application }
    | .linkedObjectGroup r =>
        .quiet { s with application := s.application.applyGroup r }
    | .loadedLinkedObject r =>
        .quiet { s with application := s.application.applyLoaded r }
    | .unloadedLinkedObject r => s.ofOutcome (s.application.applyUnloaded r)
    | .symbolTable r => s.ofOutcome (s.application.applySymbolTable r)
    | .emitAddressBuffer true => .send s [.addressBuffer s.buffer]
    | .emitData thread => s.sendData thread
    | .emitFeatures thread => s.sendFeatures thread
    | _ => .quiet s

end FeatureGenerator
end CudaProfile
