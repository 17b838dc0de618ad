import CudaProfile.AddressSpaces.Basic
/-!
# The monitored application

The address spaces of an application together with the symbols of its linked
objects, as they follow from the records that arrive.
-/

namespace CudaProfile

structure Application where
  symbols : SymbolStore
  spaces : AddressSpaces
deriving DecidableEq

namespace Application

def empty : Application :=
  ⟨∅, ∅⟩

instance : EmptyCollection Application :=
  ⟨empty⟩

def withSpaces (a : Application) (spaces : AddressSpaces) : Application :=
  ⟨a.symbols, spaces⟩

/-- The linked object of a file, which becomes known if it was not, without
symbols. -/
def objectOf (a : Application) (file : FileName) : Application × LinkedObject :=
  match a.spaces.object? file with
  | some object => (a, object)
  | none =>
      let (symbols, object) := a.symbols.addObject (.new file)
      (⟨symbols, a.spaces.learn object⟩, object)

def map (thread : ThreadName) (a : Application) (r : MappedObjectRecord) :
    Application :=
  let (a, object) := a.objectOf r.object
  a.withSpaces
    (a.spaces.insert
      ⟨thread, object, .ofHalfOpen r.range, .ofHalfOpen r.time, r.executable⟩)

def applyGroup (a : Application) (r : ObjectGroupRecord) : Application :=
  r.objects.foldl (map r.thread.name) a

def applyLoaded (a : Application) (r : LoadedRecord) : Application :=
  let (a, object) := a.objectOf r.object
  a.withSpaces
    (r.threads.foldl
      (fun spaces thread =>
        spaces.load thread.name object (.ofHalfOpen r.range) r.time
          r.executable)
      a.spaces)

/-- A linked object is unloaded from threads, one after the other, up to the
first of which it is not loaded. -/
def applyUnloaded (a : Application) (r : UnloadedRecord) :
    Outcome Application :=
  match a.spaces.object? r.object with
  | none => .refused a (.unknownObject r.object.path)
  | some object =>
      (Outcome.forEach
        (fun spaces thread =>
          AddressSpaces.unload spaces (ThreadRecord.name thread) object r.time)
        a.spaces r.threads).map a.withSpaces

/-- A symbol table arrives. If its file is known, a linked object with the
symbols takes the place of the one known before; otherwise it becomes known. -/
def applySymbolTable (a : Application) (r : SymbolTableRecord) :
    Outcome Application :=
  match ObjectContents.ofRecord r with
  | .error error => .refused a error
  | .ok contents =>
      let (symbols, object) := a.symbols.addObject contents
      .done ⟨symbols,
        match a.spaces.object? contents.file with
        | none => a.spaces.learn object
        | some former => a.spaces.exchange former object⟩

end Application
end CudaProfile
