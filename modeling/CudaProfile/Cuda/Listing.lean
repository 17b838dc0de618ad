import CudaProfile.Counter
import CudaProfile.Cuda.Format
import CudaProfile.Text.Quoted
/-!
# Listings of CUDA data

A blob as text: a line about the blob itself and a line for each record.
-/

namespace CudaProfile
namespace Cuda
namespace Listing

def maxShown : Nat :=
  8

def pcsText (pcs : List Address) : String :=
  let shown := (pcs.take maxShown).map fun pc => Text.hexLiteral pc.toNat
  Text.commaSeparated
    (if pcs.length > maxShown then
      shown ++ ["... (" ++ toString pcs.length ++ " total)"]
    else shown)

def field (label value : String) : String :=
  label ++ "=" ++ value

def hexField (label : String) (value : UInt64) : String :=
  field label (Text.hexLiteral value.toNat)

def line (parts : List String) : String :=
  " ".intercalate parts

def keyFields (key : RequestKey) : List String :=
  [hexField "context" key.1, hexField "stream" key.2.1,
    field "correlation" (toString key.2.2)]

def counterText (c : CounterDescription) : String :=
  Counter.shortName c.name ++ " [" ++ c.name ++ "] (" ++ c.kind.text ++
    ", threshold " ++ toString c.threshold ++ ")"

def timesText (first last : Time) : String :=
  TimeInterval.text ⟨first, last⟩

def recordLine (d : Data) : Record → String
  | .contextInfo i =>
      line ["ContextInfo", hexField "context" i.context,
        field "device" (toString i.device)]
  | .deviceInfo i =>
      line ["DeviceInfo", field "device" (toString i.device),
        field "name" (Text.quoted i.name),
        field "cc" (toString i.computeCapability.1 ++ "." ++
          toString i.computeCapability.2),
        field "sms" (toString i.multiprocessors),
        field "memory" (toString i.globalMemorySize)]
  | .samplingConfig c =>
      line ["SamplingConfig", field "interval" (toString c.interval),
        field "events"
          ("[" ++ Text.commaSeparated (c.events.map counterText) ++ "]")]
  | .request r =>
      line (["EnqueueRequest", r.kind.text, field "time" (toString r.time)] ++
        keyFields r.key ++
        [field "call_site"
          ("[" ++ pcsText ((d.stackTrace? r.callSite).getD []) ++ "]")])
  | .completedExec e =>
      line (["CompletedExec", e.function, timesText e.timeBegin e.timeEnd,
          "(" ++ Duration.text (Time.elapsed e.timeBegin e.timeEnd) ++ ")"] ++
        keyFields e.key ++
        [field "grid" e.grid.text, field "block" e.block.text,
          field "cache" e.cachePreference.text,
          field "regs" (toString e.registersPerThread),
          field "shared" (toString e.staticSharedMemory ++ "+" ++
            toString e.dynamicSharedMemory),
          field "local" (toString e.localMemory)])
  | .completedXfer x =>
      line (["CompletedXfer", toString x.size, "bytes", x.kind.text,
          timesText x.timeBegin x.timeEnd,
          "(" ++ x.sourceKind.text ++ " -> " ++ x.destinationKind.text ++ ")"] ++
        keyFields x.key ++ if x.asynchronous then ["async"] else [])
  | .overflowSamples s =>
      line ["OverflowSamples",
        "[" ++ Text.commaSeparated [toString s.timeBegin, toString s.timeEnd] ++
          "]",
        field "pcs" ("[" ++ pcsText s.pcs ++ "]"),
        field "counts" (toString s.counts.length)]
  | .periodicSamples s =>
      line ["PeriodicSamples", field "time" (toString s.time),
        field "counts"
          ("[" ++ Text.commaSeparated (s.counts.map toString) ++ "]")]
  | .loadedModule m =>
      line ["LoadedModule", field "time" (toString m.time),
        hexField "handle" m.handle, m.path]
  | .unloadedModule m =>
      line ["UnloadedModule", field "time" (toString m.time),
        hexField "handle" m.handle]
  | .resolvedFunction f =>
      line ["ResolvedFunction", field "time" (toString f.time),
        hexField "module" f.moduleHandle, f.function,
        hexField "handle" f.handle]

def headerLine (blob : Blob) (d : Data) : String :=
  line ["[" ++ blob.header.id ++ "]", blob.thread.text,
    blob.header.interval.text,
    "(" ++ Text.commaSeparated
      [toString d.records.length ++ " records",
        toString d.stackTraces.length ++ " stack frames",
        "payload " ++ Text.bytesHex (blob.payload.take 8) ++ "..."] ++ ")"]

def text (blob : Blob) : Except Error String := do
  let d ← Data.ofBlob blob
  return String.join
    ((headerLine blob d :: d.records.map fun r => "  " ++ recordLine d r).map
      fun l => l ++ "\n")

end Listing
end Cuda
end CudaProfile
