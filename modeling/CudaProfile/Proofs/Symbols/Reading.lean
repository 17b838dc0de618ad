import CudaProfile.Proofs.AddressSet.Equality
import CudaProfile.Symbols.Store
/-!
# Reading symbol tables

The symbols of a record are read one after the other, functions first, then
loops, then statements, up to the first bitmap that has a fault. If there is
none, the symbols are those of the record in its order, each with the addresses
whose bits are set. An object that is added to a store gets a table of its own,
from which it is read back, and no other object changes.
-/

namespace CudaProfile

/-! ## Faults -/

def firstFault? (records : List BitmapRecord) : Option BitmapFault :=
  records.findSome? fun record => failure? (Bitmap.ofRecord record)

theorem firstFault?_eq_none_iff {records : List BitmapRecord} :
    firstFault? records = none ↔
      ∀ record ∈ records, ∃ b, Bitmap.ofRecord record = .ok b := by
  unfold firstFault?
  rw [List.findSome?_eq_none_iff]
  apply forall₂_congr
  intro record _
  cases Bitmap.ofRecord record with
  | error fault =>
      simp [failure?]
  | ok b =>
      simp [failure?]

theorem firstFault?_flatMap {α : Type} (bitmaps : α → List BitmapRecord)
    (items : List α) :
    firstFault? (items.flatMap bitmaps) =
      items.findSome? fun a => firstFault? (bitmaps a) :=
  findSome?_flatMap bitmaps _ items

theorem AddressSet.failure?_ofRecords (records : List BitmapRecord) :
    failure? (ofRecords records) = firstFault? records := by
  unfold ofRecords firstFault?
  rw [failure?_bind, ← failure?_mapM]
  cases records.mapM Bitmap.ofRecord with
  | error fault =>
      rfl
  | ok bitmaps =>
      rfl

namespace Symbol

variable {α β : Type}

theorem failure?_ofBitmaps (item : α) (bitmaps : List BitmapRecord) :
    failure? (ofBitmaps item bitmaps) =
      (firstFault? bitmaps).map .badBitmap := by
  unfold ofBitmaps
  rw [← AddressSet.failure?_ofRecords]
  cases AddressSet.ofRecords bitmaps with
  | error fault =>
      rfl
  | ok ranges =>
      rfl

/-- Whether a symbol is of an item and has the addresses whose bits are set in
bitmaps. -/
def HasBits (s : Symbol α) (item : α) (bitmaps : List BitmapRecord) : Prop :=
  s.item = item ∧
    ∀ x, s.ranges.contains x = bitmaps.any fun b => Bitmap.holds b x

theorem hasBits_ofBitmaps {item : α} {bitmaps : List BitmapRecord}
    {s : Symbol α} (h : ofBitmaps item bitmaps = .ok s) :
    s.HasBits item bitmaps := by
  unfold ofBitmaps at h
  cases hranges : AddressSet.ofRecords bitmaps with
  | error fault =>
      rw [hranges] at h
      cases h
  | ok ranges =>
      rw [hranges] at h
      cases h
      refine ⟨rfl, ?_⟩
      intro x
      have hempty : AddressSet.contains .empty x = false := rfl
      change (AddressSet.union .empty ranges).contains x = _
      rw [AddressSet.contains_union, hempty, Bool.false_or,
        AddressSet.contains_ofRecords hranges]

/-! ## Lists of symbols -/

theorem failure?_mapM_ofBitmaps (item : β → α)
    (bitmaps : β → List BitmapRecord) (records : List β) :
    failure? (records.mapM fun r => ofBitmaps (item r) (bitmaps r)) =
      (firstFault? (records.flatMap bitmaps)).map .badBitmap := by
  rw [failure?_mapM, firstFault?_flatMap, List.map_findSome?]
  congr 1
  funext r
  exact failure?_ofBitmaps (item r) (bitmaps r)

theorem hasBits_mapM_ofBitmaps {item : β → α}
    {bitmaps : β → List BitmapRecord} {records : List β}
    {symbols : List (Symbol α)}
    (h : (records.mapM fun r => ofBitmaps (item r) (bitmaps r)) =
      .ok symbols) :
    List.Forall₂ (fun s r => s.HasBits (item r) (bitmaps r)) symbols
      records :=
  ((forall₂_of_mapM_eq_ok h).imp fun _ _ => hasBits_ofBitmaps).flip

end Symbol

/-! ## Objects -/

def SymbolTableRecord.bitmaps (r : SymbolTableRecord) : List BitmapRecord :=
  r.functions.flatMap FunctionRecord.bitmaps ++
    (r.loops.flatMap LoopRecord.bitmaps ++
      r.statements.flatMap StatementRecord.bitmaps)

def StatementRecord.place (r : StatementRecord) : SourcePlace :=
  ⟨r.file, r.line, r.column⟩

namespace ObjectContents

/-- Whether the symbols of an object are those of a record, in its order. -/
structure ReadFrom (c : ObjectContents) (r : SymbolTableRecord) : Prop where
  file : c.file = r.object
  functions : List.Forall₂ (fun s f => s.HasBits f.name f.bitmaps)
    c.functions r.functions
  loops : List.Forall₂ (fun s l => s.HasBits l.head l.bitmaps)
    c.loops r.loops
  statements : List.Forall₂ (fun s t => s.HasBits t.place t.bitmaps)
    c.statements r.statements

theorem failure?_ofRecord (r : SymbolTableRecord) :
    failure? (ofRecord r) = (firstFault? r.bitmaps).map .badBitmap := by
  have hfunctions := Symbol.failure?_mapM_ofBitmaps FunctionRecord.name
    FunctionRecord.bitmaps r.functions
  have hloops := Symbol.failure?_mapM_ofBitmaps LoopRecord.head
    LoopRecord.bitmaps r.loops
  have hstatements := Symbol.failure?_mapM_ofBitmaps StatementRecord.place
    StatementRecord.bitmaps r.statements
  have hor : ∀ a b : List BitmapRecord, firstFault? (a ++ b) =
      (firstFault? a).or (firstFault? b) := fun _ _ => List.findSome?_append
  unfold SymbolTableRecord.bitmaps
  rw [hor, hor, Option.map_or, Option.map_or, ← hfunctions, ← hloops,
    ← hstatements]
  unfold ofRecord
  simp only [failure?_bind]
  cases r.functions.mapM fun f => Symbol.ofBitmaps f.name f.bitmaps with
  | error error =>
      rfl
  | ok functions =>
      cases r.loops.mapM fun l => Symbol.ofBitmaps l.head l.bitmaps with
      | error error =>
          rfl
      | ok loops =>
          simp only [failure?, Option.none_or, StatementRecord.place]
          cases r.statements.mapM fun s =>
              Symbol.ofBitmaps (⟨s.file, s.line, s.column⟩ : SourcePlace)
                s.bitmaps with
          | error error =>
              rfl
          | ok statements =>
              rfl

theorem readFrom_ofRecord {r : SymbolTableRecord} {c : ObjectContents}
    (h : ofRecord r = .ok c) : c.ReadFrom r := by
  unfold ofRecord at h
  rcases bind_eq_ok_iff.mp h with ⟨functions, hfunctions, h⟩
  rcases bind_eq_ok_iff.mp h with ⟨loops, hloops, h⟩
  rcases bind_eq_ok_iff.mp h with ⟨statements, hstatements, h⟩
  cases h
  constructor
  · rfl
  · exact Symbol.hasBits_mapM_ofBitmaps hfunctions
  · exact Symbol.hasBits_mapM_ofBitmaps hloops
  · exact Symbol.hasBits_mapM_ofBitmaps hstatements

end ObjectContents

/-! ## Objects in a store -/

namespace Entry

variable {α : Type}

theorem symbolsOf_map (owner : Nat) (symbols : List (Symbol α)) :
    symbolsOf owner (symbols.map fun s => ⟨owner, s⟩) = symbols := by
  have hall : ofOwner owner (symbols.map fun s => (⟨owner, s⟩ : Entry α)) =
      (symbols.map fun s => (⟨owner, s⟩ : Entry α)).zipIdx := by
    apply List.filter_eq_self.mpr
    intro e he
    rcases List.mem_map.mp (List.fst_mem_of_mem_zipIdx he) with ⟨s, _, hs⟩
    rw [← hs]
    exact decide_eq_true rfl
  unfold symbolsOf
  rw [hall]
  change (List.zipIdx _).map (Entry.symbol ∘ Prod.fst) = _
  rw [← List.map_map, List.zipIdx_map_fst, List.map_map]
  exact List.map_id _

end Entry

namespace SymbolStore

theorem tables_addObject (s : SymbolStore) (c : ObjectContents) :
    (s.addObject c).1.tables = s.tables ++ [SymbolTable.addContents ∅ c] := by
  change (s.tables ++ [∅]).modify s.tables.length _ = _
  rw [List.modify_eq_take_drop, List.take_left, List.drop_left]
  rfl

theorem contents?_addObject (s : SymbolStore) (c : ObjectContents) :
    (s.addObject c).1.contents? (s.addObject c).2.handle = some c := by
  have hhandle : (s.addObject c).2.handle = ⟨s.tables.length, 0⟩ := by
    change (⟨_, ((s.tables ++ [∅])[s.tables.length]?.getD ∅).objects.length⟩ :
      Handle) = _
    rw [List.getElem?_append_right (Nat.le_refl _), Nat.sub_self]
    rfl
  have htable : (s.addObject c).1.table s.tables.length =
      SymbolTable.addContents ∅ c := by
    unfold table
    rw [tables_addObject, List.getElem?_append_right (Nat.le_refl _),
      Nat.sub_self]
    rfl
  rw [hhandle]
  unfold contents?
  rw [htable]
  change some (⟨c.file, Entry.symbolsOf 0 (c.functions.map fun s => ⟨0, s⟩),
    Entry.symbolsOf 0 (c.loops.map fun s => ⟨0, s⟩),
    Entry.symbolsOf 0 (c.statements.map fun s => ⟨0, s⟩)⟩ :
      ObjectContents) = _
  rw [Entry.symbolsOf_map, Entry.symbolsOf_map, Entry.symbolsOf_map]

theorem contents?_addObject_of_lt (s : SymbolStore) (c : ObjectContents)
    {object : Handle} (h : object.table < s.tables.length) :
    (s.addObject c).1.contents? object = s.contents? object := by
  unfold contents? table
  rw [tables_addObject, List.getElem?_append_left h]

end SymbolStore
end CudaProfile
