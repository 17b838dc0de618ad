import CudaProfile.AddressBuffer
import CudaProfile.Feature
import CudaProfile.Wire.Record
/-!
# Messages

What components send each other. A log is a list of messages in binary form.
-/

namespace CudaProfile

inductive Message where
  | data (blob : Blob)
  | addressBuffer (buffer : AddressBuffer)
  | addressSet (set : AddressSet)
  | attachedToThreads (attached : AttachedRecord)
  /-- The linked objects of every thread at the time of attaching. -/
  | initialLinkedObjects (groups : List ObjectGroupRecord)
  | linkedObjectGroup (group : ObjectGroupRecord)
  | loadedLinkedObject (loaded : LoadedRecord)
  | unloadedLinkedObject (unloaded : UnloadedRecord)
  | threadsStateChanged (changed : StateChangeRecord)
  | symbolTable (symbols : SymbolTableRecord)
  | threadsFinished (finished : Bool)
  | triggerAddressBuffer (trigger : Bool)
  | triggerData (trigger : Bool)
  | emitAddressBuffer (emit : Bool)
  | emitData (thread : ThreadName)
  | emitFeatures (thread : ThreadName)
  | feature (vector : FeatureVector)
deriving DecidableEq

namespace Message

def index : Message → Nat
  | data _ => 0
  | addressBuffer _ => 1
  | addressSet _ => 2
  | attachedToThreads _ => 3
  | initialLinkedObjects _ => 4
  | linkedObjectGroup _ => 5
  | loadedLinkedObject _ => 6
  | unloadedLinkedObject _ => 7
  | threadsStateChanged _ => 8
  | symbolTable _ => 9
  | threadsFinished _ => 10
  | triggerAddressBuffer _ => 11
  | triggerData _ => 12
  | emitAddressBuffer _ => 13
  | emitData _ => 14
  | emitFeatures _ => 15
  | feature _ => 16

def kind : Message → String
  | data _ => "Data"
  | addressBuffer _ => "AddressBuffer"
  | addressSet _ => "AddressSet"
  | attachedToThreads _ => "AttachedToThreads"
  | initialLinkedObjects _ => "InitialLinkedObjects"
  | linkedObjectGroup _ => "LinkedObjectGroup"
  | loadedLinkedObject _ => "LoadedLinkedObject"
  | unloadedLinkedObject _ => "UnloadedLinkedObject"
  | threadsStateChanged _ => "ThreadsStateChanged"
  | symbolTable _ => "SymbolTable"
  | threadsFinished _ => "ThreadsFinished"
  | triggerAddressBuffer _ => "TriggerAddressBuffer"
  | triggerData _ => "TriggerData"
  | emitAddressBuffer _ => "EmitAddressBuffer"
  | emitData _ => "EmitData"
  | emitFeatures _ => "EmitFeatures"
  | feature _ => "Feature"

/-- Whether a message can be encoded: a complemented set cannot. -/
def isEncodable : Message → Bool
  | addressSet set => !set.complemented
  | _ => true

end Message

/-! ## Formats -/

namespace Wire
namespace Format

def addressBuffer : Format AddressBuffer :=
  (list (word64.pair word64)).through (fun entries => ⟨.ofList entries⟩)
    fun b => b.counts.entries

def addressSet : Format AddressSet where
  put s := (list bitmap).put (s.bitmaps.map Bitmap.toRecord)
  get bytes := do
    let (records, rest) ← (list bitmap).get bytes
    match AddressSet.ofRecords records with
    | .ok set => return (set, rest)
    | .error fault => throw (.badBitmap fault)

def feature : Format Feature :=
  (bytes.pair word32).through (fun (name, bits) => ⟨name, ⟨bits⟩⟩)
    fun f => (f.name, f.value.bits)

def featureVector : Format FeatureVector :=
  (text.pair (threadName.pair (list feature))).through
    (fun (name, thread, features) => ⟨name, thread, features⟩)
    fun v => (v.name, v.thread, v.features)

def putMessage : Message → Bytes
  | .data b => blob.put b
  | .addressBuffer b => addressBuffer.put b
  | .addressSet s => addressSet.put s
  | .attachedToThreads r => attached.put r
  | .initialLinkedObjects groups => (list objectGroup).put groups
  | .linkedObjectGroup r => objectGroup.put r
  | .loadedLinkedObject r => loaded.put r
  | .unloadedLinkedObject r => unloaded.put r
  | .threadsStateChanged r => stateChange.put r
  | .symbolTable r => symbolTable.put r
  | .threadsFinished b => flag.put b
  | .triggerAddressBuffer b => flag.put b
  | .triggerData b => flag.put b
  | .emitAddressBuffer b => flag.put b
  | .emitData t => threadName.put t
  | .emitFeatures t => threadName.put t
  | .feature v => featureVector.put v

def getMessage : Nat → Bytes → Except Fault (Message × Bytes)
  | 0 => getAs blob .data
  | 1 => getAs addressBuffer .addressBuffer
  | 2 => getAs addressSet .addressSet
  | 3 => getAs attached .attachedToThreads
  | 4 => getAs (list objectGroup) .initialLinkedObjects
  | 5 => getAs objectGroup .linkedObjectGroup
  | 6 => getAs loaded .loadedLinkedObject
  | 7 => getAs unloaded .unloadedLinkedObject
  | 8 => getAs stateChange .threadsStateChanged
  | 9 => getAs symbolTable .symbolTable
  | 10 => getAs flag .threadsFinished
  | 11 => getAs flag .triggerAddressBuffer
  | 12 => getAs flag .triggerData
  | 13 => getAs flag .emitAddressBuffer
  | 14 => getAs threadName .emitData
  | 15 => getAs threadName .emitFeatures
  | _ => getAs featureVector .feature

def message : Format Message :=
  variants 17 Message.index putMessage getMessage

end Format

def encode {α : Type} (f : Format α) (value : α) : Bytes :=
  f.put value

def decode {α : Type} (f : Format α) (bytes : Bytes) : Except Error α :=
  match f.decode bytes with
  | .ok value => .ok value
  | .error fault => .error (.undecodable fault)

def encodeSet (s : AddressSet) : Except Error Bytes :=
  if s.complemented then .error .unencodableSet
  else .ok (Format.addressSet.put s)

def encodeMessage (m : Message) : Except Error Bytes :=
  if m.isEncodable then .ok (Format.message.put m) else .error .unencodableSet

def encodeLog (log : List Message) : Except Error Bytes :=
  if log.all Message.isEncodable then .ok ((Format.list Format.message).put log)
  else .error .unencodableSet

def decodeLog (bytes : Bytes) : Except Error (List Message) :=
  decode (Format.list Format.message) bytes

end Wire
end CudaProfile
