import CudaProfile.Sampling.Periodic
import CudaProfile.Wire.Record
/-!
# Records of a CUDA application

A blob of CUDA data holds records of what an application asked of its devices
and of what they did, and a pool of stack traces. Each trace ends with a zero,
and requests refer to the first frame of theirs.
-/

namespace CudaProfile
namespace Cuda

/-! ## Kinds -/

inductive RequestKind where
  | memoryCopy
  | executeKernel
deriving DecidableEq

def RequestKind.all : List RequestKind :=
  [memoryCopy, executeKernel]

def RequestKind.text : RequestKind → String
  | memoryCopy => "MemoryCopy"
  | executeKernel => "ExecuteKernel"

inductive CopyKind where
  | unknown
  | hostToDevice
  | deviceToHost
  | hostToArray
  | arrayToHost
  | arrayToArray
  | arrayToDevice
  | deviceToArray
  | deviceToDevice
  | hostToHost
deriving DecidableEq

def CopyKind.all : List CopyKind :=
  [unknown, hostToDevice, deviceToHost, hostToArray, arrayToHost, arrayToArray,
    arrayToDevice, deviceToArray, deviceToDevice, hostToHost]

def CopyKind.text : CopyKind → String
  | unknown => "Unknown"
  | hostToDevice => "HostToDevice"
  | deviceToHost => "DeviceToHost"
  | hostToArray => "HostToArray"
  | arrayToHost => "ArrayToHost"
  | arrayToArray => "ArrayToArray"
  | arrayToDevice => "ArrayToDevice"
  | deviceToArray => "DeviceToArray"
  | deviceToDevice => "DeviceToDevice"
  | hostToHost => "HostToHost"

inductive MemoryKind where
  | unknown
  | pageable
  | pinned
  | device
  | array
deriving DecidableEq

def MemoryKind.all : List MemoryKind :=
  [unknown, pageable, pinned, device, array]

def MemoryKind.text : MemoryKind → String
  | unknown => "Unknown"
  | pageable => "Pageable"
  | pinned => "Pinned"
  | device => "Device"
  | array => "Array"

inductive CachePreference where
  | invalid
  | none
  | shared
  | cache
  | equal
deriving DecidableEq

def CachePreference.all : List CachePreference :=
  [invalid, none, shared, cache, equal]

def CachePreference.text : CachePreference → String
  | invalid => "InvalidCachePreference"
  | none => "NoPreference"
  | shared => "PreferShared"
  | cache => "PreferCache"
  | equal => "PreferEqual"

structure Extents where
  x : Int32
  y : Int32
  z : Int32
deriving DecidableEq

namespace Extents

/-- The number of cells. Negative extents count as zero, and what is no word as
the greatest word. -/
def volume (e : Extents) : UInt64 :=
  UInt64.ofNat
    (min Interval.maxWord.toNat
      (e.x.toInt.toNat * e.y.toInt.toNat * e.z.toInt.toNat))

def text (e : Extents) : String :=
  "[" ++ Text.commaSeparated [toString e.x, toString e.y, toString e.z] ++ "]"

end Extents

/-! ## Records -/

/-- What a completion has in common with the request it belongs to: the
context, the stream, and the number of the request. -/
abbrev RequestKey := UInt64 × UInt64 × UInt32

structure ContextInfo where
  context : UInt64
  device : UInt32
deriving DecidableEq

structure DeviceInfo where
  device : UInt32
  name : String
  /-- The major and the minor number. -/
  computeCapability : UInt32 × UInt32
  globalMemorySize : UInt64
  multiprocessors : UInt32
  threadsPerWarp : UInt32
  maxThreadsPerBlock : UInt32
  coreClockRate : UInt64
deriving DecidableEq

structure CounterDescription where
  name : String
  kind : SampleKind
  /-- Events up to an overflow; zero for a counter that is only read
  periodically. -/
  threshold : Int32
deriving DecidableEq

structure SamplingConfig where
  /-- Nanoseconds between periodic samples. -/
  interval : UInt64
  events : List CounterDescription
deriving DecidableEq

structure Request where
  kind : RequestKind
  time : Time
  context : UInt64
  stream : UInt64
  correlation : UInt32
  /-- The place of the first frame in the pool of stack traces. -/
  callSite : UInt32
deriving DecidableEq

def Request.key (r : Request) : RequestKey :=
  (r.context, r.stream, r.correlation)

structure CompletedExec where
  context : UInt64
  stream : UInt64
  correlation : UInt32
  timeBegin : Time
  timeEnd : Time
  function : String
  grid : Extents
  block : Extents
  cachePreference : CachePreference
  registersPerThread : UInt32
  staticSharedMemory : UInt64
  dynamicSharedMemory : UInt64
  localMemory : UInt64
deriving DecidableEq

def CompletedExec.key (e : CompletedExec) : RequestKey :=
  (e.context, e.stream, e.correlation)

structure CompletedXfer where
  context : UInt64
  stream : UInt64
  correlation : UInt32
  timeBegin : Time
  timeEnd : Time
  size : UInt64
  kind : CopyKind
  sourceKind : MemoryKind
  destinationKind : MemoryKind
  asynchronous : Bool
deriving DecidableEq

def CompletedXfer.key (x : CompletedXfer) : RequestKey :=
  (x.context, x.stream, x.correlation)

/-- Counters overflowed. For every program counter there is a count of each
hardware counter. -/
structure OverflowSamples where
  timeBegin : Time
  timeEnd : Time
  pcs : List Address
  counts : List UInt64
deriving DecidableEq

structure PeriodicSamples where
  time : Time
  counts : List UInt64
deriving DecidableEq

structure LoadedModule where
  time : Time
  handle : UInt64
  path : String
deriving DecidableEq

structure UnloadedModule where
  time : Time
  handle : UInt64
deriving DecidableEq

structure ResolvedFunction where
  time : Time
  moduleHandle : UInt64
  function : String
  handle : UInt64
deriving DecidableEq

inductive Record where
  | contextInfo (info : ContextInfo)
  | deviceInfo (info : DeviceInfo)
  | samplingConfig (config : SamplingConfig)
  | request (request : Request)
  | completedExec (exec : CompletedExec)
  | completedXfer (xfer : CompletedXfer)
  | overflowSamples (samples : OverflowSamples)
  | periodicSamples (samples : PeriodicSamples)
  | loadedModule (loaded : LoadedModule)
  | unloadedModule (unloaded : UnloadedModule)
  | resolvedFunction (resolved : ResolvedFunction)
deriving DecidableEq

namespace Record

def completionKey? : Record → Option RequestKey
  | completedExec e => some e.key
  | completedXfer x => some x.key
  | _ => none

def times? : Record → Option (Time × Time)
  | request r => some (r.time, r.time)
  | completedExec e => some (e.timeBegin, e.timeEnd)
  | completedXfer x => some (x.timeBegin, x.timeEnd)
  | overflowSamples s => some (s.timeBegin, s.timeEnd)
  | periodicSamples s => some (s.time, s.time)
  | loadedModule m => some (m.time, m.time)
  | unloadedModule m => some (m.time, m.time)
  | resolvedFunction f => some (f.time, f.time)
  | contextInfo _ | deviceInfo _ | samplingConfig _ => none

/-- The least of the first and the greatest of the last times of records;
without any, the interval is empty. -/
def span (records : List Record) : TimeInterval :=
  (records.filterMap times?).foldl
    (fun i times => ⟨min i.lo times.1, max i.hi times.2⟩) Interval.empty

end Record

/-! ## Data -/

structure Data where
  records : List Record
  stackTraces : List Address
deriving DecidableEq

namespace Data

def empty : Data :=
  ⟨[], []⟩

instance : EmptyCollection Data :=
  ⟨empty⟩

/-- The frames from a place in the pool up to the next zero or the end. -/
def stackTrace? (d : Data) (callSite : UInt32) : Option (List Address) :=
  let start := callSite.toNat
  if start ≤ d.stackTraces.length then
    some ((d.stackTraces.drop start).takeWhile fun pc => pc ≠ 0)
  else none

def pcsOf (d : Data) (record : Record) : List Address :=
  let pcs := match record with
    | .request r => (d.stackTrace? r.callSite).getD []
    | .overflowSamples s => s.pcs
    | _ => []
  pcs.filter fun pc => pc ≠ 0

def pcs (d : Data) : List Address :=
  d.records.flatMap d.pcsOf

end Data
end Cuda
end CudaProfile
