import CudaProfile.FileName
import CudaProfile.Time
import CudaProfile.Wire.Format
/-!
# Records

What travels between the parts of a profiler: threads and their states, linked
objects and where they are loaded, symbol tables, and blobs of performance
data. Ranges and intervals travel half-open.
-/

namespace CudaProfile

/-! ## Threads -/

structure ThreadRecord where
  experiment : Int32
  host : String
  pid : Int64
  hasTid : Bool
  tid : Int64
  /-- Negative for a thread without a rank. -/
  rank : Int32
deriving DecidableEq

namespace ThreadRecord

/-- The record of a thread name. Unsigned parts keep their bits. -/
def ofName (t : ThreadName) : ThreadRecord where
  experiment := 0
  host := t.host
  pid := t.pid.toInt64
  hasTid := t.tid.isSome
  tid := (t.tid.getD 0).toInt64
  rank := match t.rank with
    | some rank => rank.toInt32
    | none => -1

def name (r : ThreadRecord) : ThreadName where
  host := r.host
  pid := r.pid.toUInt64
  tid := if r.hasTid then some r.tid.toUInt64 else none
  rank := if r.rank ≥ 0 then some r.rank.toUInt32 else none

theorem name_ofName (r : ThreadRecord) : (ofName r.name).name = r.name := by
  unfold ofName name
  by_cases hrank : r.rank ≥ 0
  · cases r.hasTid <;> simp [hrank]
  · cases r.hasTid <;> simp [hrank]

end ThreadRecord

inductive ThreadState where
  | disconnected
  | connecting
  | nonexistent
  | running
  | suspended
  | terminated
deriving DecidableEq

def ThreadState.all : List ThreadState :=
  [disconnected, connecting, nonexistent, running, suspended, terminated]

def ThreadState.text : ThreadState → String
  | disconnected => "disconnected"
  | connecting => "connecting"
  | nonexistent => "nonexistent"
  | running => "running"
  | suspended => "suspended"
  | terminated => "terminated"

structure AttachedRecord where
  threads : List ThreadRecord
deriving DecidableEq

structure StateChangeRecord where
  threads : List ThreadRecord
  state : ThreadState
deriving DecidableEq

/-! ## Linked objects -/

structure MappedObjectRecord where
  object : FileName
  range : Interval.HalfOpen
  time : Interval.HalfOpen
  executable : Bool
deriving DecidableEq

structure ObjectGroupRecord where
  thread : ThreadRecord
  objects : List MappedObjectRecord
deriving DecidableEq

structure LoadedRecord where
  threads : List ThreadRecord
  time : UInt64
  range : Interval.HalfOpen
  object : FileName
  executable : Bool
deriving DecidableEq

structure UnloadedRecord where
  threads : List ThreadRecord
  time : UInt64
  object : FileName
deriving DecidableEq

/-! ## Symbols -/

structure FunctionRecord where
  name : String
  bitmaps : List BitmapRecord
deriving DecidableEq

structure LoopRecord where
  head : UInt64
  bitmaps : List BitmapRecord
deriving DecidableEq

structure StatementRecord where
  file : FileName
  line : UInt32
  column : UInt32
  bitmaps : List BitmapRecord
deriving DecidableEq

/-- The symbols of a linked object, with addresses relative to its own. -/
structure SymbolTableRecord where
  object : FileName
  functions : List FunctionRecord
  loops : List LoopRecord
  statements : List StatementRecord
deriving DecidableEq

/-! ## Blobs -/

structure BlobHeader where
  experiment : Int32
  collector : Int32
  id : String
  thread : ThreadRecord
  time : Interval.HalfOpen
deriving DecidableEq

def BlobHeader.interval (h : BlobHeader) : TimeInterval :=
  Interval.ofHalfOpen h.time

/-- A header and bytes that only the collector of the data can read. -/
structure Blob where
  header : BlobHeader
  payload : Bytes
deriving DecidableEq

def Blob.thread (b : Blob) : ThreadName :=
  b.header.thread.name

/-! ## Formats -/

namespace Wire
namespace Format

def halfOpen : Format Interval.HalfOpen :=
  (word64.pair word64).through (fun v => ⟨v.1, v.2⟩)
    fun r => (r.start, r.stop)

def bitmap : Format BitmapRecord :=
  (halfOpen.pair bytes).through (fun v => ⟨v.1, v.2⟩)
    fun r => (r.range, r.data)

def thread : Format ThreadRecord :=
  (int32.pair (text.pair (int64.pair (flag.pair (int64.pair int32))))).through
    (fun (experiment, host, pid, hasTid, tid, rank) =>
      ⟨experiment, host, pid, hasTid, tid, rank⟩)
    fun r => (r.experiment, r.host, r.pid, r.hasTid, r.tid, r.rank)

def threadName : Format ThreadName :=
  (text.pair (word64.pair ((optional word64).pair (optional word32)))).through
    (fun (host, pid, tid, rank) => ⟨host, pid, tid, rank⟩)
    fun t => (t.host, t.pid, t.tid, t.rank)

def threadState : Format ThreadState :=
  enumeration ThreadState.all

def attached : Format AttachedRecord :=
  (list thread).through (fun threads => ⟨threads⟩) fun r => r.threads

def stateChange : Format StateChangeRecord :=
  ((list thread).pair threadState).through
    (fun (threads, state) => ⟨threads, state⟩)
    fun r => (r.threads, r.state)

def file : Format FileName :=
  (text.pair word64).through (fun (path, checksum) => ⟨path, checksum⟩)
    fun f => (f.path, f.checksum)

def mappedObject : Format MappedObjectRecord :=
  (file.pair (halfOpen.pair (halfOpen.pair flag))).through
    (fun (object, range, time, executable) =>
      ⟨object, range, time, executable⟩)
    fun r => (r.object, r.range, r.time, r.executable)

def objectGroup : Format ObjectGroupRecord :=
  (thread.pair (list mappedObject)).through
    (fun (thread, objects) => ⟨thread, objects⟩)
    fun r => (r.thread, r.objects)

def loaded : Format LoadedRecord :=
  ((list thread).pair (word64.pair (halfOpen.pair (file.pair flag)))).through
    (fun (threads, time, range, object, executable) =>
      ⟨threads, time, range, object, executable⟩)
    fun r => (r.threads, r.time, r.range, r.object, r.executable)

def unloaded : Format UnloadedRecord :=
  ((list thread).pair (word64.pair file)).through
    (fun (threads, time, object) => ⟨threads, time, object⟩)
    fun r => (r.threads, r.time, r.object)

def function : Format FunctionRecord :=
  (text.pair (list bitmap)).through (fun (name, bitmaps) => ⟨name, bitmaps⟩)
    fun r => (r.name, r.bitmaps)

def loop : Format LoopRecord :=
  (word64.pair (list bitmap)).through (fun (head, bitmaps) => ⟨head, bitmaps⟩)
    fun r => (r.head, r.bitmaps)

def statement : Format StatementRecord :=
  (file.pair (word32.pair (word32.pair (list bitmap)))).through
    (fun (file, line, column, bitmaps) => ⟨file, line, column, bitmaps⟩)
    fun r => (r.file, r.line, r.column, r.bitmaps)

def symbolTable : Format SymbolTableRecord :=
  (file.pair ((list function).pair ((list loop).pair (list statement)))).through
    (fun (object, functions, loops, statements) =>
      ⟨object, functions, loops, statements⟩)
    fun r => (r.object, r.functions, r.loops, r.statements)

def blobHeader : Format BlobHeader :=
  (int32.pair (int32.pair (text.pair (thread.pair halfOpen)))).through
    (fun (experiment, collector, id, thread, time) =>
      ⟨experiment, collector, id, thread, time⟩)
    fun h => (h.experiment, h.collector, h.id, h.thread, h.time)

def blob : Format Blob :=
  (blobHeader.pair bytes).through (fun (header, payload) => ⟨header, payload⟩)
    fun b => (b.header, b.payload)

end Format
end Wire
end CudaProfile
