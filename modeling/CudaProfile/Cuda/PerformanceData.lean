import CudaProfile.Cuda.Activity
import CudaProfile.Cuda.Format
import CudaProfile.Order.Pairs
import CudaProfile.Outcome
import CudaProfile.Sampling.Group
import CudaProfile.Sampling.Overflow
import CudaProfile.Visit
/-!
# CUDA performance data

What the blobs of many threads tell, thread by thread. A completion may be
reported by another thread than the one that made the request, before or after
it. Requests and completions find each other by their keys, and what a device
did belongs to the thread of the request.
-/

namespace CudaProfile
namespace Cuda

open Std Lexicographic

structure ThreadData where
  blobs : List Blob
  transfers : List DataTransfer
  kernels : List KernelExecution
  /-- The values of all counters by time. -/
  periodic : OrderedMap Time (List UInt64)
  /-- A series for each counter. -/
  overflow : List OverflowSeries
deriving DecidableEq

namespace ThreadData

def empty : ThreadData :=
  ⟨[], [], [], ∅, []⟩

instance : EmptyCollection ThreadData :=
  ⟨empty⟩

end ThreadData

structure PerformanceData where
  threads : OrderedMap ThreadName ThreadData
  counters : List CounterDescription
  samplingInterval : Option UInt64
  devices : OrderedMap UInt32 DeviceInfo
  contexts : OrderedMap UInt64 UInt32
  /-- The distinct stack traces of all requests, in the order in which they
  came up first. -/
  callSites : List (List Address)
  /-- Requests that wait for their completions. -/
  requests : OrderedMap RequestKey Pending
  /-- Completions that wait for their requests. -/
  parked : OrderedMap RequestKey Completion
  /-- The thread that made the latest request of a key. -/
  owners : OrderedMap RequestKey ThreadName
deriving DecidableEq

namespace PerformanceData

def empty : PerformanceData :=
  ⟨∅, [], none, ∅, ∅, [], ∅, ∅, ∅⟩

instance : EmptyCollection PerformanceData :=
  ⟨empty⟩

def thread (p : PerformanceData) (name : ThreadName) : ThreadData :=
  (p.threads.get? name).getD ∅

def changeThread (p : PerformanceData) (name : ThreadName)
    (f : ThreadData → ThreadData) : PerformanceData :=
  { p with threads := p.threads.alter name fun data => f (data.getD ∅) }

/-! ## Well-formed records -/

def traceOf (d : Data) (r : Request) : Except Error (List Address) :=
  match d.stackTrace? r.callSite with
  | some trace => .ok trace
  | none => .error (.callSiteOutside r.callSite d.stackTraces.length)

/-- A record is refused unless its call site is in the pool and it has a value
for each counter. -/
def check (d : Data) (counters : Nat) : Record → Except Error Unit
  | .request r => (traceOf d r).map fun _ => ()
  | .overflowSamples s =>
      if s.counts.length = s.pcs.length * counters then .ok ()
      else .error (.overflowShape s.counts.length s.pcs.length counters)
  | .periodicSamples s =>
      if s.counts.length = counters then .ok ()
      else .error (.periodicShape s.counts.length counters)
  | _ => .ok ()

/-- The number of counters after a record; the first sampling configuration
with any counters fixes it. -/
def countersAfter (counters : Nat) : Record → Nat
  | .samplingConfig c => if counters = 0 then c.events.length else counters
  | _ => counters

def checkAll (d : Data) : Nat → List Record → Except Error Unit
  | _, [] => .ok ()
  | counters, r :: rest =>
      match check d counters r with
      | .ok () => checkAll d (countersAfter counters r) rest
      | .error error => .error error

/-! ## Requests and completions -/

def internCallSite (p : PerformanceData) (trace : List Address) :
    PerformanceData × Nat :=
  match p.callSites.findIdx? fun known => known = trace with
  | some number => (p, number)
  | none =>
      ({ p with callSites := p.callSites ++ [trace] }, p.callSites.length)

/-- A request has met its completion. They tell what a device did, unless one
is about a copy and the other about a kernel. -/
def join (p : PerformanceData) (pending : Pending) (completion : Completion) :
    PerformanceData :=
  let device := (p.contexts.get? pending.request.context).getD 0
  match pending.request.kind, completion with
  | .memoryCopy, .xfer x =>
      p.changeThread pending.thread fun data =>
        { data with transfers := data.transfers ++ [pending.transfer device x] }
  | .executeKernel, .exec e =>
      p.changeThread pending.thread fun data =>
        { data with kernels := data.kernels ++ [pending.execution device e] }
  | .memoryCopy, .exec _ => p
  | .executeKernel, .xfer _ => p

def enqueue (p : PerformanceData) (name : ThreadName) (trace : List Address)
    (r : Request) : PerformanceData :=
  let (p, callSite) := p.internCallSite trace
  let p := { p with owners := p.owners.insert r.key name }
  let pending : Pending := ⟨name, r, callSite⟩
  match p.parked.get? r.key with
  | some completion =>
      join { p with parked := p.parked.erase r.key } pending completion
  | none => { p with requests := p.requests.insert r.key pending }

def complete (p : PerformanceData) (key : RequestKey)
    (completion : Completion) : PerformanceData :=
  match p.requests.get? key with
  | some pending =>
      join { p with requests := p.requests.erase key } pending completion
  | none => { p with parked := p.parked.insert key completion }

/-! ## Samples -/

def addCounts (pc : Address) :
    List OverflowSeries → List UInt64 → List OverflowSeries
  | [], _ => []
  | series, [] => series
  | s :: series, count :: counts =>
      (if count > 0 then s.add pc count else s) :: addCounts pc series counts

def addGroups : List OverflowSeries → List Address → List UInt64 →
    List OverflowSeries
  | series, [], _ => series
  | series, pc :: pcs, counts =>
      addGroups (addCounts pc series (counts.take series.length)) pcs
        (counts.drop series.length)

/-- A thread's series with overflow samples added; there are as many series as
counters. -/
def addOverflow (counters : List CounterDescription) (s : OverflowSamples)
    (series : List OverflowSeries) : List OverflowSeries :=
  let series :=
    if series.length = counters.length then series
    else counters.map fun c => .new c.name
  addGroups series s.pcs s.counts

/-! ## Applying blobs -/

/-- What a record of a thread tells. Only the first sampling configuration with
any counters counts. -/
def applyRecord (name : ThreadName) (d : Data) (p : PerformanceData)
    (record : Record) : Outcome PerformanceData :=
  match record with
  | .contextInfo i =>
      .done { p with contexts := p.contexts.insert i.context i.device }
  | .deviceInfo i => .done { p with devices := p.devices.insert i.device i }
  | .samplingConfig c =>
      .done
        (if p.counters.isEmpty then
          { p with counters := c.events, samplingInterval := some c.interval }
        else p)
  | .request r => .orElse p ((traceOf d r).map fun trace => p.enqueue name trace r)
  | .completedExec e => .done (p.complete e.key (.exec e))
  | .completedXfer x => .done (p.complete x.key (.xfer x))
  | .overflowSamples s =>
      .orElse p ((check d p.counters.length record).map fun _ =>
        p.changeThread name fun data =>
          { data with overflow := addOverflow p.counters s data.overflow })
  | .periodicSamples s =>
      .orElse p ((check d p.counters.length record).map fun _ =>
        p.changeThread name fun data =>
          { data with periodic := data.periodic.insert s.time s.counts })
  | .loadedModule _ | .unloadedModule _ | .resolvedFunction _ => .done p

def keep (p : PerformanceData) (blob : Blob) : PerformanceData :=
  p.changeThread blob.thread fun data =>
    { data with blobs := data.blobs ++ [blob] }

/-- A blob arrives. All its records are checked before any of them counts. -/
def apply (p : PerformanceData) (blob : Blob) : Outcome PerformanceData :=
  match Data.ofBlob blob with
  | .error error => .refused p error
  | .ok d =>
      match checkAll d p.counters.length d.records with
      | .error error => .refused p error
      | .ok () =>
          Outcome.forEach (applyRecord blob.thread d) (p.keep blob) d.records

/-! ## Reading -/

def pendingRequests (p : PerformanceData) : Nat :=
  p.requests.size

def blobs (p : PerformanceData) (name : ThreadName) : List Blob :=
  (p.thread name).blobs

def allBlobs (p : PerformanceData) : List Blob :=
  p.threads.values.flatMap ThreadData.blobs

def transfersIn (p : PerformanceData) (name : ThreadName)
    (interval : TimeInterval) : List DataTransfer :=
  (p.thread name).transfers.filter fun t => t.interval.intersects interval

def kernelsIn (p : PerformanceData) (name : ThreadName)
    (interval : TimeInterval) : List KernelExecution :=
  (p.thread name).kernels.filter fun k => k.interval.intersects interval

def periodicIn (p : PerformanceData) (name : ThreadName)
    (interval : TimeInterval) : List (Time × List UInt64) :=
  (p.thread name).periodic.entries.filter fun row => interval.contains row.1

def periodicSeries (p : PerformanceData) (name : ThreadName) : SeriesGroup :=
  let rows := (p.thread name).periodic.entries
  ⟨p.counters.zipIdx.map fun (c, number) =>
    rows.foldl
      (fun series row =>
        match row.2[number]? with
        | some value => series.add row.1 value
        | none => series)
      (.new c.name c.kind)⟩

def overflow (p : PerformanceData) (name : ThreadName) : List OverflowSeries :=
  (p.thread name).overflow

def visitBlobPcs {σ : Type} (visitor : σ → Address → σ × Bool) :
    σ → List Blob → Except Error (σ × Bool)
  | state, [] => .ok (state, true)
  | state, blob :: rest => do
      let d ← Data.ofBlob blob
      let (next, more) := visit visitor state d.pcs
      if more then visitBlobPcs visitor next rest else return (next, false)

def visitPcs {σ : Type} (p : PerformanceData)
    (visitor : σ → Address → σ × Bool) (state : σ) :
    Except Error (σ × Bool) :=
  visitBlobPcs visitor state p.allBlobs

/-! ## Blobs by owner -/

def isOwnedBy (p : PerformanceData) (name : ThreadName) (r : Record) : Bool :=
  match r.completionKey? with
  | some key => p.owners.get? key = some name
  | none => false

def isForeignTo (p : PerformanceData) (name : ThreadName) (r : Record) : Bool :=
  match r.completionKey? with
  | some key =>
      match p.owners.get? key with
      | some owner => owner ≠ name
      | none => false
  | none => false

/-- A blob of a thread without the completions of other threads' requests; none
if that takes all its records. A blob that keeps its records is left as it
is. -/
def ownPart (p : PerformanceData) (name : ThreadName) (blob : Blob) :
    Except Error (Option Blob) := do
  let d ← Data.ofBlob blob
  let kept := d.records.filter fun r => !p.isForeignTo name r
  if kept.length = d.records.length then return some blob
  else if kept.isEmpty then return none
  else return some (Data.toBlob ⟨kept, d.stackTraces⟩ blob.header)

def adoptedFrom (p : PerformanceData) (name : ThreadName) (blob : Blob) :
    Except Error (List Record) := do
  let d ← Data.ofBlob blob
  return d.records.filter (p.isOwnedBy name)

def blobsOfOthers (p : PerformanceData) (name : ThreadName) : List Blob :=
  (p.threads.entries.filter fun e => e.1 ≠ name).flatMap fun e => e.2.blobs

def adoptedHeader (own : BlobHeader) (name : ThreadName)
    (adopted : List Record) : BlobHeader where
  experiment := own.experiment
  collector := own.collector
  id := collectorId
  thread := .ofName name
  time := (Record.span adopted).toHalfOpen

/-- The blobs of a thread, without the completions of other threads' requests,
and then one blob with the completions that other threads reported for its
own. Completions without a known request stay where they are. -/
def reshuffled (p : PerformanceData) (name : ThreadName) :
    Except Error (List Blob) := do
  let own ← (p.blobs name).mapM (p.ownPart name)
  let own := own.filterMap id
  match p.blobs name with
  | [] => return own
  | first :: _ =>
      let adopted ← (p.blobsOfOthers name).mapM (p.adoptedFrom name)
      let adopted := adopted.flatten
      if adopted.isEmpty then return own
      else
        let header := adoptedHeader first.header name adopted
        return own ++ [Data.toBlob ⟨adopted, []⟩ header]

end PerformanceData
end Cuda
end CudaProfile
