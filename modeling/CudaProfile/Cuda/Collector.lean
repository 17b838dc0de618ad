import CudaProfile.Wire.Record
/-!
# The states of a collector
-/

namespace CudaProfile
namespace Cuda

inductive CollectorState where
  | idle
  | running
  | paused
  | stopped
deriving DecidableEq

def CollectorState.text : CollectorState → String
  | idle => "Idle"
  | running => "Running"
  | paused => "Paused"
  | stopped => "Stopped"

structure Collector where
  header : Option BlobHeader
  state : CollectorState
deriving DecidableEq

namespace Collector

def new : Collector :=
  ⟨none, .idle⟩

def start (_ : Collector) (header : BlobHeader) : Collector :=
  ⟨some header, .running⟩

def pause (c : Collector) : Collector :=
  { c with state := .paused }

def resume (c : Collector) : Collector :=
  { c with state := .running }

def stop (c : Collector) : Collector :=
  { c with state := .stopped }

end Collector
end Cuda
end CudaProfile
