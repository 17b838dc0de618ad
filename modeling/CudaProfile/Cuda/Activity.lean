import CudaProfile.Cuda.Record
/-!
# What devices did

A request and its completion together tell what a device did for a thread.
-/

namespace CudaProfile
namespace Cuda

structure DataTransfer where
  device : UInt32
  /-- The number of the stack trace of the request. -/
  callSite : Nat
  time : Time
  timeBegin : Time
  timeEnd : Time
  size : UInt64
  kind : CopyKind
  sourceKind : MemoryKind
  destinationKind : MemoryKind
  asynchronous : Bool
deriving DecidableEq

def DataTransfer.interval (t : DataTransfer) : TimeInterval :=
  ⟨t.time, max t.timeEnd t.time⟩

structure KernelExecution where
  device : UInt32
  callSite : Nat
  correlation : UInt32
  context : UInt64
  stream : UInt64
  time : Time
  timeBegin : Time
  timeEnd : Time
  function : String
  grid : Extents
  block : Extents
  cachePreference : CachePreference
  registersPerThread : UInt32
  staticSharedMemory : UInt64
  dynamicSharedMemory : UInt64
  localMemory : UInt64
deriving DecidableEq

namespace KernelExecution

def interval (k : KernelExecution) : TimeInterval :=
  ⟨k.time, max k.timeEnd k.time⟩

def duration (k : KernelExecution) : UInt64 :=
  Time.elapsed k.timeBegin k.timeEnd

end KernelExecution

inductive Completion where
  | exec (exec : CompletedExec)
  | xfer (xfer : CompletedXfer)
deriving DecidableEq

structure Pending where
  thread : ThreadName
  request : Request
  callSite : Nat
deriving DecidableEq

namespace Pending

def transfer (p : Pending) (device : UInt32) (x : CompletedXfer) :
    DataTransfer where
  device := device
  callSite := p.callSite
  time := p.request.time
  timeBegin := x.timeBegin
  timeEnd := x.timeEnd
  size := x.size
  kind := x.kind
  sourceKind := x.sourceKind
  destinationKind := x.destinationKind
  asynchronous := x.asynchronous

def execution (p : Pending) (device : UInt32) (e : CompletedExec) :
    KernelExecution where
  device := device
  callSite := p.callSite
  correlation := e.correlation
  context := e.context
  stream := e.stream
  time := p.request.time
  timeBegin := e.timeBegin
  timeEnd := e.timeEnd
  function := e.function
  grid := e.grid
  block := e.block
  cachePreference := e.cachePreference
  registersPerThread := e.registersPerThread
  staticSharedMemory := e.staticSharedMemory
  dynamicSharedMemory := e.dynamicSharedMemory
  localMemory := e.localMemory

end Pending
end Cuda
end CudaProfile
