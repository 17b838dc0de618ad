import CudaProfile.Cuda.Record
import CudaProfile.Error
/-!
# The binary form of CUDA data

Payloads of the blobs that carry the identifier of CUDA data.
-/

namespace CudaProfile
namespace Cuda

def collectorId : String :=
  "cuda"

namespace Format

open Wire Wire.Format

def contextInfo : Format ContextInfo :=
  (word64.pair word32).through (fun (context, device) => ⟨context, device⟩)
    fun i => (i.context, i.device)

def deviceInfo : Format DeviceInfo :=
  (word32.pair (text.pair ((word32.pair word32).pair (word64.pair
    (word32.pair (word32.pair (word32.pair word64))))))).through
    (fun (device, name, capability, memory, multiprocessors, warp, block,
        clock) =>
      ⟨device, name, capability, memory, multiprocessors, warp, block, clock⟩)
    fun i => (i.device, i.name, i.computeCapability, i.globalMemorySize,
      i.multiprocessors, i.threadsPerWarp, i.maxThreadsPerBlock,
      i.coreClockRate)

def sampleKind : Format SampleKind :=
  enumeration SampleKind.all

def counterDescription : Format CounterDescription :=
  (text.pair (sampleKind.pair int32)).through
    (fun (name, kind, threshold) => ⟨name, kind, threshold⟩)
    fun c => (c.name, c.kind, c.threshold)

def samplingConfig : Format SamplingConfig :=
  (word64.pair (list counterDescription)).through
    (fun (interval, events) => ⟨interval, events⟩)
    fun c => (c.interval, c.events)

def requestKind : Format RequestKind :=
  enumeration RequestKind.all

def request : Format Request :=
  (requestKind.pair (word64.pair (word64.pair (word64.pair
    (word32.pair word32))))).through
    (fun (kind, time, context, stream, correlation, callSite) =>
      ⟨kind, time, context, stream, correlation, callSite⟩)
    fun r =>
      (r.kind, r.time, r.context, r.stream, r.correlation, r.callSite)

def extents : Format Extents :=
  (int32.pair (int32.pair int32)).through (fun (x, y, z) => ⟨x, y, z⟩)
    fun e => (e.x, e.y, e.z)

def cachePreference : Format CachePreference :=
  enumeration CachePreference.all

def completedExec : Format CompletedExec :=
  (word64.pair (word64.pair (word32.pair (word64.pair (word64.pair
    (text.pair (extents.pair (extents.pair (cachePreference.pair
      (word32.pair (word64.pair (word64.pair word64)))))))))))).through
    (fun (context, stream, correlation, timeBegin, timeEnd, function, grid,
        block, preference, registers, staticShared, dynamicShared, localSize) =>
      ⟨context, stream, correlation, timeBegin, timeEnd, function, grid, block,
        preference, registers, staticShared, dynamicShared, localSize⟩)
    fun e => (e.context, e.stream, e.correlation, e.timeBegin, e.timeEnd,
      e.function, e.grid, e.block, e.cachePreference, e.registersPerThread,
      e.staticSharedMemory, e.dynamicSharedMemory, e.localMemory)

def copyKind : Format CopyKind :=
  enumeration CopyKind.all

def memoryKind : Format MemoryKind :=
  enumeration MemoryKind.all

def completedXfer : Format CompletedXfer :=
  (word64.pair (word64.pair (word32.pair (word64.pair (word64.pair
    (word64.pair (copyKind.pair (memoryKind.pair
      (memoryKind.pair flag))))))))).through
    (fun (context, stream, correlation, timeBegin, timeEnd, size, kind, source,
        destination, asynchronous) =>
      ⟨context, stream, correlation, timeBegin, timeEnd, size, kind, source,
        destination, asynchronous⟩)
    fun x => (x.context, x.stream, x.correlation, x.timeBegin, x.timeEnd,
      x.size, x.kind, x.sourceKind, x.destinationKind, x.asynchronous)

def overflowSamples : Format OverflowSamples :=
  (word64.pair (word64.pair ((list word64).pair (list word64)))).through
    (fun (timeBegin, timeEnd, pcs, counts) => ⟨timeBegin, timeEnd, pcs, counts⟩)
    fun s => (s.timeBegin, s.timeEnd, s.pcs, s.counts)

def periodicSamples : Format PeriodicSamples :=
  (word64.pair (list word64)).through (fun (time, counts) => ⟨time, counts⟩)
    fun s => (s.time, s.counts)

def loadedModule : Format LoadedModule :=
  (word64.pair (word64.pair text)).through
    (fun (time, handle, path) => ⟨time, handle, path⟩)
    fun m => (m.time, m.handle, m.path)

def unloadedModule : Format UnloadedModule :=
  (word64.pair word64).through (fun (time, handle) => ⟨time, handle⟩)
    fun m => (m.time, m.handle)

def resolvedFunction : Format ResolvedFunction :=
  (word64.pair (word64.pair (text.pair word64))).through
    (fun (time, moduleHandle, function, handle) =>
      ⟨time, moduleHandle, function, handle⟩)
    fun f => (f.time, f.moduleHandle, f.function, f.handle)

def recordIndex : Record → Nat
  | .contextInfo _ => 0
  | .deviceInfo _ => 1
  | .samplingConfig _ => 2
  | .request _ => 3
  | .completedExec _ => 4
  | .completedXfer _ => 5
  | .overflowSamples _ => 6
  | .periodicSamples _ => 7
  | .loadedModule _ => 8
  | .unloadedModule _ => 9
  | .resolvedFunction _ => 10

def putRecord : Record → Bytes
  | .contextInfo info => contextInfo.put info
  | .deviceInfo info => deviceInfo.put info
  | .samplingConfig config => samplingConfig.put config
  | .request r => request.put r
  | .completedExec exec => completedExec.put exec
  | .completedXfer xfer => completedXfer.put xfer
  | .overflowSamples samples => overflowSamples.put samples
  | .periodicSamples samples => periodicSamples.put samples
  | .loadedModule loaded => loadedModule.put loaded
  | .unloadedModule unloaded => unloadedModule.put unloaded
  | .resolvedFunction resolved => resolvedFunction.put resolved

def getRecord : Nat → Bytes → Except Fault (Record × Bytes)
  | 0 => getAs contextInfo .contextInfo
  | 1 => getAs deviceInfo .deviceInfo
  | 2 => getAs samplingConfig .samplingConfig
  | 3 => getAs request .request
  | 4 => getAs completedExec .completedExec
  | 5 => getAs completedXfer .completedXfer
  | 6 => getAs overflowSamples .overflowSamples
  | 7 => getAs periodicSamples .periodicSamples
  | 8 => getAs loadedModule .loadedModule
  | 9 => getAs unloadedModule .unloadedModule
  | _ => getAs resolvedFunction .resolvedFunction

def record : Format Record :=
  variants 11 recordIndex putRecord getRecord

def data : Format Data :=
  ((list record).pair (list word64)).through
    (fun (records, stackTraces) => ⟨records, stackTraces⟩)
    fun d => (d.records, d.stackTraces)

end Format

def Data.toBlob (d : Data) (header : BlobHeader) : Blob :=
  ⟨header, Format.data.put d⟩

def Data.ofBlob (blob : Blob) : Except Error Data :=
  match Format.data.decode blob.payload with
  | .ok data => .ok data
  | .error fault => .error (.undecodable fault)

end Cuda
end CudaProfile
