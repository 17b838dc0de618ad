import CudaProfile.Symbols.Contents
/-!
# Symbol tables

A table holds linked objects and, for all of them together, their functions,
loops and statements, each numbered in the order of arrival. Nothing is ever
taken out, so a number stays good.
-/

namespace CudaProfile

/-- A symbol and the number of the linked object that it belongs to. -/
structure Entry (α : Type) where
  owner : Nat
  symbol : Symbol α
deriving DecidableEq

namespace Entry

variable {α : Type}

def ofOwner (owner : Nat) (entries : List (Entry α)) : List (Entry α × Nat) :=
  entries.zipIdx.filter fun e => e.1.owner = owner

def symbolsOf (owner : Nat) (entries : List (Entry α)) : List (Symbol α) :=
  (ofOwner owner entries).map fun e => e.1.symbol

def addRanges (id : Nat) (ranges : AddressSet) (entries : List (Entry α)) :
    List (Entry α) :=
  entries.modify id fun e => ⟨e.owner, e.symbol.addRanges ranges⟩

end Entry

structure SymbolTable where
  objects : List FileName
  functions : List (Entry String)
  loops : List (Entry Address)
  statements : List (Entry SourcePlace)
deriving DecidableEq

namespace SymbolTable

def empty : SymbolTable :=
  ⟨[], [], [], []⟩

instance : EmptyCollection SymbolTable :=
  ⟨empty⟩

/-! ## Adding -/

def addObject (t : SymbolTable) (file : FileName) : SymbolTable :=
  { t with objects := t.objects ++ [file] }

def addFunction (t : SymbolTable) (owner : Nat) (name : String) : SymbolTable :=
  { t with functions := t.functions ++ [⟨owner, .new name⟩] }

def addLoop (t : SymbolTable) (owner : Nat) (head : Address) : SymbolTable :=
  { t with loops := t.loops ++ [⟨owner, .new head⟩] }

def addStatement (t : SymbolTable) (owner : Nat) (place : SourcePlace) :
    SymbolTable :=
  { t with statements := t.statements ++ [⟨owner, .new place⟩] }

def addFunctionRanges (t : SymbolTable) (id : Nat) (ranges : AddressSet) :
    SymbolTable :=
  { t with functions := Entry.addRanges id ranges t.functions }

def addLoopRanges (t : SymbolTable) (id : Nat) (ranges : AddressSet) :
    SymbolTable :=
  { t with loops := Entry.addRanges id ranges t.loops }

def addStatementRanges (t : SymbolTable) (id : Nat) (ranges : AddressSet) :
    SymbolTable :=
  { t with statements := Entry.addRanges id ranges t.statements }

def addContents (t : SymbolTable) (c : ObjectContents) : SymbolTable :=
  let owner := t.objects.length
  { objects := t.objects ++ [c.file]
    functions := t.functions ++ c.functions.map fun s => ⟨owner, s⟩
    loops := t.loops ++ c.loops.map fun s => ⟨owner, s⟩
    statements := t.statements ++ c.statements.map fun s => ⟨owner, s⟩ }

/-! ## Objects -/

def contents? (t : SymbolTable) (object : Nat) : Option ObjectContents :=
  t.objects[object]?.map fun file =>
    { file
      functions := Entry.symbolsOf object t.functions
      loops := Entry.symbolsOf object t.loops
      statements := Entry.symbolsOf object t.statements }

def functionsAt (t : SymbolTable) (object : Nat) (address : Address) :
    List (Entry String × Nat) :=
  (Entry.ofOwner object t.functions).filter fun f =>
    f.1.symbol.ranges.contains address

def loopsAt (t : SymbolTable) (object : Nat) (address : Address) :
    List (Entry Address × Nat) :=
  (Entry.ofOwner object t.loops).filter fun l =>
    l.1.symbol.ranges.contains address

def statementsAt (t : SymbolTable) (object : Nat) (address : Address) :
    List (Entry SourcePlace × Nat) :=
  (Entry.ofOwner object t.statements).filter fun s =>
    s.1.symbol.ranges.contains address

def functionsNamed (t : SymbolTable) (object : Nat) (name : String) :
    List (Entry String × Nat) :=
  (Entry.ofOwner object t.functions).filter fun f => f.1.symbol.item = name

/-! ## Symbols of one object that belong together -/

/-- The loops whose head lies in a function. -/
def loopsOfFunction (t : SymbolTable) (f : Entry String) :
    List (Entry Address × Nat) :=
  (Entry.ofOwner f.owner t.loops).filter fun l =>
    f.symbol.ranges.contains l.1.symbol.item

/-- The statements that share an address with a function. -/
def statementsOfFunction (t : SymbolTable) (f : Entry String) :
    List (Entry SourcePlace × Nat) :=
  (Entry.ofOwner f.owner t.statements).filter fun s => f.symbol.meets s.1.symbol

def functionsOfLoop (t : SymbolTable) (l : Entry Address) :
    List (Entry String × Nat) :=
  t.functionsAt l.owner l.symbol.item

def functionsOfStatement (t : SymbolTable) (s : Entry SourcePlace) :
    List (Entry String × Nat) :=
  (Entry.ofOwner s.owner t.functions).filter fun f => s.symbol.meets f.1.symbol

end SymbolTable
end CudaProfile
