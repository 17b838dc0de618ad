import CudaProfile.Component.Basic
import CudaProfile.Cuda.Listing
import CudaProfile.Cuda.PerformanceData
/-!
# The data aggregator

Collects CUDA data until it is asked for, and then sends the blobs of every
thread with the completions where they belong.
-/

namespace CudaProfile

open Cuda

structure DataAggregator where
  /-- Whether to show every blob that is received or sent. -/
  debug : Bool
  addresses : AddressSet
  data : PerformanceData
deriving DecidableEq

namespace DataAggregator

def new (debug : Bool) : DataAggregator :=
  ⟨debug, .empty, .empty⟩

/-- What is shown of a blob: nothing, unless that was asked for and the blob
can be read. -/
def shown (s : DataAggregator) (direction : String) (blob : Blob) :
    List String :=
  if s.debug then
    match Listing.text blob with
    | .ok text => ["[DataAggregator] " ++ direction ++ "\n" ++ text ++ "\n"]
    | .error _ => []
  else []

def withPcs (addresses : AddressSet) (pcs : List Address) : AddressSet :=
  if pcs.isEmpty then addresses
  else addresses.union (.ofAddresses pcs)

def receive (s : DataAggregator) (blob : Blob) : Reply DataAggregator :=
  if blob.header.id ≠ collectorId then .quiet s
  else
    let shown := s.shown "received" blob
    match Data.ofBlob blob with
    | .error error => ⟨s, [], shown, some error⟩
    | .ok d =>
        let applied := s.data.apply blob
        match applied.refusal with
        | some error => ⟨{ s with data := applied.state }, [], shown, some error⟩
        | none =>
            ⟨{ s with
                addresses := withPcs s.addresses d.pcs
                data := applied.state },
              [], shown, none⟩

/-- The blobs of threads with the completions where they belong, up to the
first thread whose blobs cannot be read. -/
def blobsOf (data : PerformanceData) :
    List ThreadName → List Blob × Option Error
  | [] => ([], none)
  | thread :: rest =>
      match data.reshuffled thread with
      | .error error => ([], some error)
      | .ok blobs =>
          let (more, refusal) := blobsOf data rest
          (blobs ++ more, refusal)

def sendData (s : DataAggregator) : Reply DataAggregator :=
  let (blobs, refusal) := blobsOf s.data s.data.threads.keys
  ⟨s, blobs.map Message.data, blobs.flatMap (s.shown "emitted"), refusal⟩

instance : Component DataAggregator where
  name _ := "DataAggregator"
  accepts _
    | .data _ | .triggerAddressBuffer _ | .triggerData _ => true
    | _ => false
  handle s
    | .data blob => s.receive blob
    | .triggerAddressBuffer true => .send s [.addressSet s.addresses]
    | .triggerData true => s.sendData
    | _ => .quiet s

end DataAggregator
end CudaProfile
