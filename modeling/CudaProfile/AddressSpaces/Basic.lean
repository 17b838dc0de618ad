import CudaProfile.Outcome
import CudaProfile.Symbols.Store
import CudaProfile.Time
/-!
# Address spaces

Which linked objects each thread had loaded, over which addresses and for how
long. Mappings are numbered in the order of their arrival and found through
indexes by thread, by linked object, and by both.
-/

namespace CudaProfile

structure Mapping where
  thread : ThreadName
  object : LinkedObject
  range : AddressRange
  interval : TimeInterval
  executable : Bool
deriving DecidableEq

namespace Mapping

def isLoaded (m : Mapping) : Bool :=
  m.interval.hi = Time.last

def unloadedAt (m : Mapping) (time : Time) : Mapping :=
  { m with interval := ⟨m.interval.lo, time⟩ }

def withObject (m : Mapping) (object : LinkedObject) : Mapping :=
  { m with object := object }

def placedAlike (m n : Mapping) : Bool :=
  m.range.equivalent n.range && m.interval.equivalent n.interval &&
    m.object.file.agrees n.object.file

def toRecord (m : Mapping) : MappedObjectRecord where
  object := m.object.file
  range := m.range.toHalfOpen
  time := m.interval.toHalfOpen
  executable := m.executable

end Mapping

/-- The mappings of all threads, their indexes, and the linked objects known by
their paths. Objects of one path may differ in their checksums. -/
structure AddressSpaces where
  mappings : List Mapping
  byThread : OrderedMap ThreadName (List Nat)
  byObject : OrderedMap Handle (List Nat)
  byThreadObject : OrderedMap (ThreadName × Handle) (List Nat)
  objects : OrderedMap (List Path.Component) (List LinkedObject)
deriving DecidableEq

namespace AddressSpaces

def empty : AddressSpaces :=
  ⟨[], ∅, ∅, ∅, ∅⟩

instance : EmptyCollection AddressSpaces :=
  ⟨empty⟩

/-! ## Reading -/

def size (s : AddressSpaces) : Nat :=
  s.mappings.length

def isEmpty (s : AddressSpaces) : Bool :=
  s.mappings.isEmpty

def mappingsOf (s : AddressSpaces) (numbers : List Nat) : List Mapping :=
  numbers.filterMap fun number => s.mappings[number]?

def threads (s : AddressSpaces) : List ThreadName :=
  s.byThread.keys

def threadMappings (s : AddressSpaces) (thread : ThreadName) : List Mapping :=
  s.mappingsOf ((s.byThread.get? thread).getD [])

def objectMappings (s : AddressSpaces) (object : Handle) : List Mapping :=
  s.mappingsOf ((s.byObject.get? object).getD [])

def mappingsIn (s : AddressSpaces) (thread : ThreadName) (range : AddressRange)
    (interval : TimeInterval) : List Mapping :=
  (s.threadMappings thread).filter fun m =>
    m.range.intersects range && m.interval.intersects interval

def knownObjects (s : AddressSpaces) : List LinkedObject :=
  s.objects.values.flatten

def distinct {α : Type} [DecidableEq α] : List α → List α → List α
  | _, [] => []
  | seen, x :: rest =>
      if x ∈ seen then distinct seen rest
      else x :: distinct (x :: seen) rest

def threadObjects (s : AddressSpaces) (thread : ThreadName) :
    List LinkedObject :=
  distinct [] ((s.threadMappings thread).map Mapping.object)

def object? (s : AddressSpaces) (file : FileName) : Option LinkedObject :=
  ((s.objects.get? (Path.components file.path)).getD []).find? fun object =>
    object.file.agrees file

/-- Whether every mapping has one of its thread in other address spaces that
places its file alike. -/
def coveredBy (s other : AddressSpaces) : Bool :=
  s.mappings.all fun m =>
    (other.threadMappings m.thread).any fun n => n.placedAlike m

/-- Whether the mappings are the same, whichever linked objects carry them. -/
def equivalent (s other : AddressSpaces) : Bool :=
  s.coveredBy other && other.coveredBy s

/-! ## Writing -/

def append (number : Nat) (numbers : Option (List Nat)) : List Nat :=
  numbers.getD [] ++ [number]

def insert (s : AddressSpaces) (m : Mapping) : AddressSpaces :=
  let number := append s.size
  { s with
    mappings := s.mappings ++ [m]
    byThread := s.byThread.alter m.thread number
    byObject := s.byObject.alter m.object.handle number
    byThreadObject :=
      s.byThreadObject.alter (m.thread, m.object.handle) number }

def load (s : AddressSpaces) (thread : ThreadName) (object : LinkedObject)
    (range : AddressRange) (time : Time) (executable : Bool) : AddressSpaces :=
  s.insert ⟨thread, object, range, ⟨time, Time.last⟩, executable⟩

def openMappings (s : AddressSpaces) (thread : ThreadName)
    (object : LinkedObject) : List Nat :=
  ((s.byThreadObject.get? (thread, object.handle)).getD []).filter
    fun number => (s.mappings[number]?.map Mapping.isLoaded).getD false

/-- A linked object is unloaded from a thread at a time, which ends every
mapping that is still open; one at least has to be. -/
def unload (s : AddressSpaces) (thread : ThreadName) (object : LinkedObject)
    (time : Time) : Outcome AddressSpaces :=
  match s.openMappings thread object with
  | [] => .refused s (.notLoaded object.file.path thread)
  | numbers =>
      .done { s with
        mappings := numbers.foldl
          (fun ms number => ms.modify number fun m => m.unloadedAt time)
          s.mappings }

def learn (s : AddressSpaces) (object : LinkedObject) : AddressSpaces :=
  { s with
    objects := s.objects.alter (Path.components object.file.path) fun known =>
      known.getD [] ++ [object] }

def exchangeFirst (former object : LinkedObject) :
    List LinkedObject → List LinkedObject
  | [] => []
  | known :: rest =>
      if known.handle = former.handle then object :: rest
      else known :: exchangeFirst former object rest

/-- Exchange the object of the mapping of a number, and move what the index by
thread and object has under the former object to the new one. -/
def exchangeIn (former object : LinkedObject) (s : AddressSpaces)
    (number : Nat) : AddressSpaces :=
  match s.mappings[number]? with
  | none => s
  | some m =>
      let moved :=
        match s.byThreadObject.get? (m.thread, former.handle) with
        | none => s.byThreadObject
        | some numbers =>
            (s.byThreadObject.erase (m.thread, former.handle)).alter
              (m.thread, object.handle) fun present =>
                present.getD [] ++ numbers
      { s with
        mappings := s.mappings.modify number fun m => m.withObject object
        byThreadObject := moved }

def exchange (s : AddressSpaces) (former object : LinkedObject) :
    AddressSpaces :=
  let numbers := (s.byObject.get? former.handle).getD []
  let key := Path.components object.file.path
  let s :=
    { s with
      objects := match s.objects.get? key with
        | none => s.objects
        | some known =>
            s.objects.insert key (exchangeFirst former object known)
      byObject := s.byObject.erase former.handle }
  let s := numbers.foldl (exchangeIn former object) s
  if numbers.isEmpty then s
  else { s with byObject := s.byObject.insert object.handle numbers }

/-! ## Records -/

def attachedRecord (s : AddressSpaces) : AttachedRecord :=
  ⟨s.threads.map ThreadRecord.ofName⟩

def groupRecord (s : AddressSpaces) (thread : ThreadName) :
    ObjectGroupRecord where
  thread := .ofName thread
  objects := (s.threadMappings thread).map Mapping.toRecord

def groupRecords (s : AddressSpaces) : List ObjectGroupRecord :=
  s.threads.map s.groupRecord

end AddressSpaces
end CudaProfile
