import CudaProfile.AddressSet.Basic
import CudaProfile.Order.Sorting
import CudaProfile.Wire.Record
/-!
# The symbols of a linked object

A linked object is a file with functions, loops and statements, each with a set
of addresses relative to where the object is loaded.
-/

namespace CudaProfile

structure SourcePlace where
  file : FileName
  line : UInt32
  column : UInt32
deriving DecidableEq

namespace SourcePlace

def agrees (a b : SourcePlace) : Bool :=
  a.file.agrees b.file && a.line = b.line && a.column = b.column

def order (a b : SourcePlace) : Ordering :=
  (a.file.order b.file).then
    ((compare a.line b.line).then (compare a.column b.column))

def text (p : SourcePlace) : String :=
  p.file.path ++ ":" ++ toString p.line ++ ":" ++ toString p.column

end SourcePlace

/-- Something with addresses: a function by its name, a loop by the address of
its head, or a statement by its place. -/
structure Symbol (α : Type) where
  item : α
  ranges : AddressSet
deriving DecidableEq

namespace Symbol

variable {α : Type}

def new (item : α) : Symbol α :=
  ⟨item, .empty⟩

def addRanges (s : Symbol α) (ranges : AddressSet) : Symbol α :=
  ⟨s.item, s.ranges.union ranges⟩

def meets {β : Type} (s : Symbol α) (t : Symbol β) : Bool :=
  !(s.ranges.intersection t.ranges).isEmpty

def agrees (items : α → α → Bool) (s t : Symbol α) : Bool :=
  items s.item t.item && s.ranges.same t.ranges

def listsAgree (order : α → α → Ordering) (items : α → α → Bool)
    (ss ts : List (Symbol α)) : Bool :=
  let sorted := sortBy fun (s t : Symbol α) =>
    order s.item t.item = .lt
  ss.length = ts.length &&
    ((sorted ss).zip (sorted ts)).all fun pair => pair.1.agrees items pair.2

def ofBitmaps (item : α) (bitmaps : List BitmapRecord) :
    Except Error (Symbol α) :=
  match AddressSet.ofRecords bitmaps with
  | .ok ranges => .ok ((new item).addRanges ranges)
  | .error fault => .error (.badBitmap fault)

end Symbol

structure ObjectContents where
  file : FileName
  functions : List (Symbol String)
  loops : List (Symbol Address)
  statements : List (Symbol SourcePlace)
deriving DecidableEq

namespace ObjectContents

def new (file : FileName) : ObjectContents :=
  ⟨file, [], [], []⟩

/-- Whether two objects can be of one file and have the same symbols, in
whatever order. -/
def equivalent (a b : ObjectContents) : Bool :=
  a.file.agrees b.file &&
    Symbol.listsAgree compare (fun x y => x = y) a.functions b.functions &&
    Symbol.listsAgree compare (fun x y => x = y) a.loops b.loops &&
    Symbol.listsAgree SourcePlace.order SourcePlace.agrees
      a.statements b.statements

def functionRecord (f : Symbol String) : Except Error FunctionRecord := do
  return ⟨f.item, ← f.ranges.toRecords⟩

def loopRecord (l : Symbol Address) : Except Error LoopRecord := do
  return ⟨l.item, ← l.ranges.toRecords⟩

def statementRecord (s : Symbol SourcePlace) : Except Error StatementRecord := do
  return ⟨s.item.file, s.item.line, s.item.column, ← s.ranges.toRecords⟩

def toRecord (c : ObjectContents) : Except Error SymbolTableRecord := do
  return {
    object := c.file
    functions := ← c.functions.mapM functionRecord
    loops := ← c.loops.mapM loopRecord
    statements := ← c.statements.mapM statementRecord }

def ofRecord (r : SymbolTableRecord) : Except Error ObjectContents := do
  return {
    file := r.object
    functions := ← r.functions.mapM fun f => Symbol.ofBitmaps f.name f.bitmaps
    loops := ← r.loops.mapM fun l => Symbol.ofBitmaps l.head l.bitmaps
    statements := ← r.statements.mapM fun s =>
      Symbol.ofBitmaps ⟨s.file, s.line, s.column⟩ s.bitmaps }

end ObjectContents

def Symbol.functionText (f : Symbol String) : String :=
  f.item

def Symbol.loopText (l : Symbol Address) : String :=
  "loop@" ++ l.item.text

def Symbol.statementText (s : Symbol SourcePlace) : String :=
  s.item.text

end CudaProfile
