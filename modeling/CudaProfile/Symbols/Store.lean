import CudaProfile.Order.Pairs
import CudaProfile.Symbols.Table
/-!
# Stores of symbol tables

All tables in use, numbered in the order of their making. A handle names one
entry of one table, so that equal handles mean the same entry and not only
equal contents.
-/

namespace CudaProfile

open Std Lexicographic

/-- The number of a table in a store and that of an entry in the table. -/
structure Handle where
  table : Nat
  id : Nat
deriving DecidableEq

namespace Handle

def key (h : Handle) : Nat × Nat :=
  (h.table, h.id)

theorem key_injective {a b : Handle} (h : a.key = b.key) : a = b := by
  cases a
  cases b
  simp_all [key]

instance : Ord Handle where
  compare := fun a b => compare a.key b.key

instance : TransOrd Handle :=
  inferInstanceAs (TransCmp (compareOn key))

instance : LawfulEqOrd Handle where
  eq_of_compare h := key_injective (LawfulEqOrd.eq_of_compare h)
  compare_self {h} := (ReflCmp.compare_self : compare h.key h.key = .eq)

end Handle

structure LinkedObject where
  handle : Handle
  file : FileName
deriving DecidableEq

structure SymbolStore where
  tables : List SymbolTable
deriving DecidableEq

namespace SymbolStore

def empty : SymbolStore :=
  ⟨[]⟩

instance : EmptyCollection SymbolStore :=
  ⟨empty⟩

def table (s : SymbolStore) (number : Nat) : SymbolTable :=
  s.tables[number]?.getD ∅

def addTable (s : SymbolStore) (t : SymbolTable) : SymbolStore × Nat :=
  (⟨s.tables ++ [t]⟩, s.tables.length)

def modify (s : SymbolStore) (number : Nat) (f : SymbolTable → SymbolTable) :
    SymbolStore :=
  ⟨s.tables.modify number f⟩

/-! ## Functions, loops and statements -/

def addFunction (s : SymbolStore) (object : Handle) (name : String) :
    SymbolStore × Handle :=
  (s.modify object.table fun t => t.addFunction object.id name,
    ⟨object.table, (s.table object.table).functions.length⟩)

def addLoop (s : SymbolStore) (object : Handle) (head : Address) :
    SymbolStore × Handle :=
  (s.modify object.table fun t => t.addLoop object.id head,
    ⟨object.table, (s.table object.table).loops.length⟩)

def addStatement (s : SymbolStore) (object : Handle) (place : SourcePlace) :
    SymbolStore × Handle :=
  (s.modify object.table fun t => t.addStatement object.id place,
    ⟨object.table, (s.table object.table).statements.length⟩)

def addFunctionRanges (s : SymbolStore) (function : Handle)
    (ranges : AddressSet) : SymbolStore :=
  s.modify function.table fun t => t.addFunctionRanges function.id ranges

def addLoopRanges (s : SymbolStore) (loop : Handle) (ranges : AddressSet) :
    SymbolStore :=
  s.modify loop.table fun t => t.addLoopRanges loop.id ranges

def addStatementRanges (s : SymbolStore) (statement : Handle)
    (ranges : AddressSet) : SymbolStore :=
  s.modify statement.table fun t => t.addStatementRanges statement.id ranges

def function? (s : SymbolStore) (function : Handle) : Option (Entry String) :=
  (s.table function.table).functions[function.id]?

def loop? (s : SymbolStore) (loop : Handle) : Option (Entry Address) :=
  (s.table loop.table).loops[loop.id]?

def statement? (s : SymbolStore) (statement : Handle) :
    Option (Entry SourcePlace) :=
  (s.table statement.table).statements[statement.id]?

/-! ## Linked objects -/

def contents? (s : SymbolStore) (object : Handle) : Option ObjectContents :=
  (s.table object.table).contents? object.id

def addContents (s : SymbolStore) (number : Nat) (c : ObjectContents) :
    SymbolStore × LinkedObject :=
  (s.modify number fun t => t.addContents c,
    ⟨⟨number, (s.table number).objects.length⟩, c.file⟩)

def addObject (s : SymbolStore) (c : ObjectContents) :
    SymbolStore × LinkedObject :=
  let (s, number) := s.addTable ∅
  s.addContents number c

def copyInto (s : SymbolStore) (object : Handle) (number : Nat) :
    Option (SymbolStore × LinkedObject) :=
  (s.contents? object).map (s.addContents number)

def deepCopy (s : SymbolStore) (object : Handle) :
    Option (SymbolStore × LinkedObject) :=
  (s.contents? object).map s.addObject

def equivalentFunctions (s : SymbolStore) (f g : Handle) : Bool :=
  match s.function? f, s.function? g with
  | some f, some g => f.symbol.agrees (fun x y => x = y) g.symbol
  | _, _ => false

def equivalentLoops (s : SymbolStore) (l m : Handle) : Bool :=
  match s.loop? l, s.loop? m with
  | some l, some m => l.symbol.agrees (fun x y => x = y) m.symbol
  | _, _ => false

def equivalentStatements (s : SymbolStore) (a b : Handle) : Bool :=
  match s.statement? a, s.statement? b with
  | some a, some b => a.symbol.agrees SourcePlace.agrees b.symbol
  | _, _ => false

def equivalent (s : SymbolStore) (a b : Handle) : Bool :=
  match s.contents? a, s.contents? b with
  | some a, some b => a.equivalent b
  | _, _ => false

end SymbolStore
end CudaProfile
