import CudaProfile.Proofs.AddressSet.Policy
import CudaProfile.Proofs.Symbols.Reading
/-!
# Objects restored from their records

The addresses of a symbol are united into its set, so the bitmaps of the set are
always those that its addresses are partitioned into, whatever bitmaps the
united sets had. A record keeps these bitmaps, and uniting them with nothing
partitions the same addresses again. Hence an object without complemented sets
is read back from its record as it was, whichever objects share its table, and
has the same record again.
-/

namespace CudaProfile

namespace AddressSet

theorem empty_union {s : AddressSet} (h : s.Partitioned)
    (hplain : s.complemented = false) : AddressSet.union .empty s = s := by
  apply eq_of_same (partitioned_union _ _) h
  · unfold AddressSet.union
    rw [hplain]
    rfl
  · apply (same_iff _ _).mpr
    intro x
    have hempty : AddressSet.contains .empty x = false := rfl
    rw [contains_union, hempty, Bool.false_or]

theorem failure?_toRecords (s : AddressSet) :
    failure? s.toRecords =
      if s.complemented then some .complementedSet else none := by
  unfold toRecords
  split
  · rfl
  · rfl

theorem toRecords_of_plain {s : AddressSet} (hplain : s.complemented = false) :
    s.toRecords = .ok (s.bitmaps.map Bitmap.toRecord) := by
  unfold toRecords
  rw [hplain]
  rfl

end AddressSet

/-! ## Symbols -/

namespace Symbol

variable {α ρ : Type}

def record (make : α → List BitmapRecord → ρ) (s : Symbol α) :
    Except Error ρ := do
  return make s.item (← s.ranges.toRecords)

def plainRecord (make : α → List BitmapRecord → ρ) (s : Symbol α) : ρ :=
  make s.item (s.ranges.bitmaps.map Bitmap.toRecord)

theorem failure?_mapM_record (make : α → List BitmapRecord → ρ)
    (symbols : List (Symbol α)) :
    failure? (symbols.mapM (record make)) =
      (symbols.map Symbol.ranges).findSome? fun set =>
        failure? set.toRecords := by
  rw [failure?_mapM, List.findSome?_map]
  congr 1
  funext s
  unfold record
  rw [failure?_bind]
  simp only [Function.comp_apply]
  cases s.ranges.toRecords with
  | error error =>
      rfl
  | ok bitmaps =>
      rfl

theorem mapM_record_of_plain (make : α → List BitmapRecord → ρ)
    {symbols : List (Symbol α)}
    (hplain : ∀ s ∈ symbols, s.ranges.complemented = false) :
    symbols.mapM (record make) = .ok (symbols.map (plainRecord make)) := by
  apply mapM_eq_ok
  intro s hs
  unfold record
  rw [AddressSet.toRecords_of_plain (hplain s hs)]
  rfl

theorem ofBitmaps_toRecord {s : Symbol α} (h : s.ranges.Partitioned)
    (hplain : s.ranges.complemented = false) :
    ofBitmaps s.item (s.ranges.bitmaps.map Bitmap.toRecord) = .ok s := by
  unfold ofBitmaps
  rw [AddressSet.ofRecords_map_toRecord h.legal hplain]
  change Except.ok (⟨s.item, AddressSet.union .empty s.ranges⟩ : Symbol α) = _
  rw [AddressSet.empty_union h hplain]

theorem partitioned_ofBitmaps {item : α} {bitmaps : List BitmapRecord}
    {s : Symbol α} (h : ofBitmaps item bitmaps = .ok s) :
    s.ranges.Partitioned := by
  unfold ofBitmaps at h
  split at h
  · cases h
    exact AddressSet.partitioned_union _ _
  · cases h

end Symbol

/-! ## Objects -/

def StatementRecord.ofPlace (p : SourcePlace) (bitmaps : List BitmapRecord) :
    StatementRecord :=
  ⟨p.file, p.line, p.column, bitmaps⟩

namespace ObjectContents

def sets (c : ObjectContents) : List AddressSet :=
  c.functions.map Symbol.ranges ++
    (c.loops.map Symbol.ranges ++ c.statements.map Symbol.ranges)

theorem failure?_toRecord (c : ObjectContents) :
    failure? c.toRecord =
      c.sets.findSome? fun set => failure? set.toRecords := by
  have hfunctions := Symbol.failure?_mapM_record FunctionRecord.mk c.functions
  have hloops := Symbol.failure?_mapM_record LoopRecord.mk c.loops
  have hstatements := Symbol.failure?_mapM_record StatementRecord.ofPlace
    c.statements
  unfold sets
  rw [List.findSome?_append, List.findSome?_append, ← hfunctions, ← hloops,
    ← hstatements]
  change failure? (c.functions.mapM (Symbol.record FunctionRecord.mk) >>=
    fun _ => c.loops.mapM (Symbol.record LoopRecord.mk) >>=
    fun _ => c.statements.mapM (Symbol.record StatementRecord.ofPlace) >>=
    fun _ => _) = _
  simp only [failure?_bind]
  cases c.functions.mapM (Symbol.record FunctionRecord.mk) with
  | error error =>
      rfl
  | ok functions =>
      cases c.loops.mapM (Symbol.record LoopRecord.mk) with
      | error error =>
          rfl
      | ok loops =>
          simp only [failure?, Option.none_or]
          cases c.statements.mapM (Symbol.record StatementRecord.ofPlace) with
          | error error =>
              rfl
          | ok statements =>
              rfl

structure Partitioned (c : ObjectContents) : Prop where
  functions : ∀ s ∈ c.functions, s.ranges.Partitioned
  loops : ∀ s ∈ c.loops, s.ranges.Partitioned
  statements : ∀ s ∈ c.statements, s.ranges.Partitioned

theorem exists_record {c : ObjectContents} (h : c.Partitioned)
    (hplain : ∀ set ∈ c.sets, set.complemented = false) :
    ∃ m, c.toRecord = .ok m ∧ ofRecord m = .ok c := by
  have hfunctions : ∀ s ∈ c.functions, s.ranges.complemented = false :=
    fun s hs => hplain _
      (List.mem_append_left _ (List.mem_map_of_mem hs))
  have hloops : ∀ s ∈ c.loops, s.ranges.complemented = false :=
    fun s hs => hplain _ (List.mem_append_right _
      (List.mem_append_left _ (List.mem_map_of_mem hs)))
  have hstatements : ∀ s ∈ c.statements, s.ranges.complemented = false :=
    fun s hs => hplain _ (List.mem_append_right _
      (List.mem_append_right _ (List.mem_map_of_mem hs)))
  have hf : c.functions.mapM functionRecord = .ok _ :=
    Symbol.mapM_record_of_plain FunctionRecord.mk hfunctions
  have hl : c.loops.mapM loopRecord = .ok _ :=
    Symbol.mapM_record_of_plain LoopRecord.mk hloops
  have hs : c.statements.mapM statementRecord = .ok _ :=
    Symbol.mapM_record_of_plain StatementRecord.ofPlace hstatements
  refine ⟨⟨c.file, c.functions.map (Symbol.plainRecord FunctionRecord.mk),
    c.loops.map (Symbol.plainRecord LoopRecord.mk),
    c.statements.map (Symbol.plainRecord StatementRecord.ofPlace)⟩, ?_, ?_⟩
  · unfold toRecord
    rw [hf, hl, hs]
    rfl
  · unfold ofRecord
    dsimp only
    rw [mapM_map_eq_ok fun s hmem =>
        Symbol.ofBitmaps_toRecord (h.functions s hmem) (hfunctions s hmem),
      mapM_map_eq_ok fun s hmem =>
        Symbol.ofBitmaps_toRecord (h.loops s hmem) (hloops s hmem),
      mapM_map_eq_ok fun s hmem =>
        Symbol.ofBitmaps_toRecord (h.statements s hmem) (hstatements s hmem)]
    rfl

theorem toRecord_eq_error_iff (c : ObjectContents) (error : Error) :
    c.toRecord = .error error ↔
      error = .complementedSet ∧ ∃ set ∈ c.sets, set.complemented = true := by
  rw [← failure?_eq_some_iff, failure?_toRecord]
  simp only [AddressSet.failure?_toRecords]
  rw [findSome?_if, ← List.any_eq_true]
  cases c.sets.any AddressSet.complemented with
  | false =>
      simp
  | true =>
      simp [eq_comm]

theorem partitioned_new (file : FileName) : (new file).Partitioned := by
  constructor
  · intro s hs
    cases hs
  · intro s hs
    cases hs
  · intro s hs
    cases hs

theorem partitioned_ofRecord {r : SymbolTableRecord} {c : ObjectContents}
    (h : ofRecord r = .ok c) : c.Partitioned := by
  unfold ofRecord at h
  rcases bind_eq_ok_iff.mp h with ⟨functions, hfunctions, h⟩
  rcases bind_eq_ok_iff.mp h with ⟨loops, hloops, h⟩
  rcases bind_eq_ok_iff.mp h with ⟨statements, hstatements, h⟩
  cases h
  constructor
  · intro s hs
    rcases exists_of_mapM_eq_ok hfunctions hs with ⟨f, _, hread⟩
    exact Symbol.partitioned_ofBitmaps hread
  · intro s hs
    rcases exists_of_mapM_eq_ok hloops hs with ⟨l, _, hread⟩
    exact Symbol.partitioned_ofBitmaps hread
  · intro s hs
    rcases exists_of_mapM_eq_ok hstatements hs with ⟨t, _, hread⟩
    exact Symbol.partitioned_ofBitmaps hread

end ObjectContents

/-! ## Tables and stores -/

namespace Entry

variable {α : Type}

def Partitioned (entries : List (Entry α)) : Prop :=
  ∀ e ∈ entries, e.symbol.ranges.Partitioned

theorem partitioned_append {entries : List (Entry α)} (h : Partitioned entries)
    (owner : Nat) {symbols : List (Symbol α)}
    (hsymbols : ∀ s ∈ symbols, s.ranges.Partitioned) :
    Partitioned (entries ++ symbols.map fun s => ⟨owner, s⟩) := by
  intro e he
  rcases List.mem_append.mp he with hold | hnew
  · exact h e hold
  · rcases List.mem_map.mp hnew with ⟨s, hs, rfl⟩
    exact hsymbols s hs

theorem partitioned_new {entries : List (Entry α)} (h : Partitioned entries)
    (owner : Nat) (item : α) :
    Partitioned (entries ++ [⟨owner, .new item⟩]) := by
  have hnew : ∀ s ∈ [Symbol.new item], s.ranges.Partitioned := by
    intro s hs
    rw [List.mem_singleton.mp hs]
    exact AddressSet.Repartitioned.empty.partitioned
  exact partitioned_append h owner hnew

theorem partitioned_addRanges {entries : List (Entry α)}
    (h : Partitioned entries) (id : Nat) (ranges : AddressSet) :
    Partitioned (addRanges id ranges entries) := by
  intro e he
  rcases of_mem_modify he with hold | ⟨old, _, rfl⟩
  · exact h e hold
  · exact AddressSet.partitioned_union _ _

theorem partitioned_symbolsOf {entries : List (Entry α)}
    (h : Partitioned entries) (owner : Nat) :
    ∀ s ∈ symbolsOf owner entries, s.ranges.Partitioned := by
  intro s hs
  rcases List.mem_map.mp hs with ⟨e, he, rfl⟩
  exact h _ (List.fst_mem_of_mem_zipIdx (List.mem_of_mem_filter he))

end Entry

structure SymbolTable.Partitioned (t : SymbolTable) : Prop where
  functions : Entry.Partitioned t.functions
  loops : Entry.Partitioned t.loops
  statements : Entry.Partitioned t.statements

theorem SymbolTable.partitioned_empty : SymbolTable.Partitioned ∅ := by
  constructor
  · intro e he
    cases he
  · intro e he
    cases he
  · intro e he
    cases he

theorem SymbolTable.Partitioned.addContents {t : SymbolTable}
    (h : t.Partitioned) {c : ObjectContents} (hc : c.Partitioned) :
    (t.addContents c).Partitioned := by
  constructor
  · exact Entry.partitioned_append h.functions _ hc.functions
  · exact Entry.partitioned_append h.loops _ hc.loops
  · exact Entry.partitioned_append h.statements _ hc.statements

theorem SymbolTable.Partitioned.contents? {t : SymbolTable}
    (h : t.Partitioned) {object : Nat} {c : ObjectContents}
    (hc : t.contents? object = some c) : c.Partitioned := by
  rcases Option.map_eq_some_iff.mp hc with ⟨file, _, rfl⟩
  constructor
  · exact Entry.partitioned_symbolsOf h.functions object
  · exact Entry.partitioned_symbolsOf h.loops object
  · exact Entry.partitioned_symbolsOf h.statements object

namespace SymbolStore

def Partitioned (s : SymbolStore) : Prop :=
  ∀ t ∈ s.tables, t.Partitioned

theorem Partitioned.table {s : SymbolStore} (h : s.Partitioned)
    (number : Nat) : (s.table number).Partitioned := by
  unfold SymbolStore.table
  cases ht : s.tables[number]? with
  | none =>
      exact SymbolTable.partitioned_empty
  | some t =>
      exact h t (List.mem_of_getElem? ht)

theorem Partitioned.contents? {s : SymbolStore} (h : s.Partitioned)
    {object : Handle} {c : ObjectContents}
    (hc : s.contents? object = some c) : c.Partitioned :=
  (h.table object.table).contents? hc

theorem Partitioned.addTable {s : SymbolStore} (h : s.Partitioned) :
    (s.addTable ∅).1.Partitioned := by
  intro t ht
  rcases List.mem_append.mp ht with hold | hnew
  · exact h t hold
  · rw [List.mem_singleton.mp hnew]
    exact SymbolTable.partitioned_empty

theorem Partitioned.modify {s : SymbolStore} (h : s.Partitioned) (number : Nat)
    {f : SymbolTable → SymbolTable}
    (hf : ∀ t, t.Partitioned → (f t).Partitioned) :
    (s.modify number f).Partitioned := by
  intro t ht
  rcases of_mem_modify ht with hold | ⟨old, hold, rfl⟩
  · exact h t hold
  · exact hf old (h old hold)

theorem Partitioned.addContents {s : SymbolStore} (h : s.Partitioned)
    (number : Nat) {c : ObjectContents} (hc : c.Partitioned) :
    (s.addContents number c).1.Partitioned :=
  h.modify number fun _ ht => ht.addContents hc

theorem Partitioned.addObject {s : SymbolStore} (h : s.Partitioned)
    {c : ObjectContents} (hc : c.Partitioned) :
    (s.addObject c).1.Partitioned :=
  h.addTable.addContents s.tables.length hc

/-! ## What is added to a store -/

/-- The stores that come about when tables, objects, functions, loops,
statements and addresses are added, objects are copied, and objects are read
from records. -/
inductive Built : SymbolStore → Prop where
  | empty : Built ∅
  | table {s} : Built s → Built (s.addTable ∅).1
  | object {s} (number file) :
      Built s → Built (s.addContents number (.new file)).1
  | function {s} (object name) : Built s → Built (s.addFunction object name).1
  | loop {s} (object head) : Built s → Built (s.addLoop object head).1
  | statement {s} (object place) :
      Built s → Built (s.addStatement object place).1
  | functionRanges {s} (function ranges) :
      Built s → Built (s.addFunctionRanges function ranges)
  | loopRanges {s} (loop ranges) : Built s → Built (s.addLoopRanges loop ranges)
  | statementRanges {s} (statement ranges) :
      Built s → Built (s.addStatementRanges statement ranges)
  | copy {s object number copied} :
      Built s → s.copyInto object number = some copied → Built copied.1
  | deepCopy {s object copied} :
      Built s → s.deepCopy object = some copied → Built copied.1
  | record {s r c} :
      Built s → ObjectContents.ofRecord r = .ok c → Built (s.addObject c).1

theorem Built.partitioned {s : SymbolStore} (h : s.Built) : s.Partitioned := by
  induction h with
  | empty =>
      intro t ht
      cases ht
  | table _ ih =>
      exact ih.addTable
  | object number file _ ih =>
      exact ih.addContents number (ObjectContents.partitioned_new file)
  | function object name _ ih =>
      exact ih.modify _ fun _ ht =>
        { ht with functions := Entry.partitioned_new ht.functions _ _ }
  | loop object head _ ih =>
      exact ih.modify _ fun _ ht =>
        { ht with loops := Entry.partitioned_new ht.loops _ _ }
  | statement object place _ ih =>
      exact ih.modify _ fun _ ht =>
        { ht with statements := Entry.partitioned_new ht.statements _ _ }
  | functionRanges function ranges _ ih =>
      exact ih.modify _ fun _ ht =>
        { ht with functions := Entry.partitioned_addRanges ht.functions _ _ }
  | loopRanges loop ranges _ ih =>
      exact ih.modify _ fun _ ht =>
        { ht with loops := Entry.partitioned_addRanges ht.loops _ _ }
  | statementRanges statement ranges _ ih =>
      exact ih.modify _ fun _ ht =>
        { ht with statements := Entry.partitioned_addRanges ht.statements _ _ }
  | copy _ hcopy ih =>
      rcases Option.map_eq_some_iff.mp hcopy with ⟨c, hc, rfl⟩
      exact ih.addContents _ (ih.contents? hc)
  | deepCopy _ hcopy ih =>
      rcases Option.map_eq_some_iff.mp hcopy with ⟨c, hc, rfl⟩
      exact ih.addObject (ih.contents? hc)
  | record _ hread ih =>
      exact ih.addObject (ObjectContents.partitioned_ofRecord hread)

/-! ## Objects survive their records -/

/-- Of an object in a store, whatever was added to it and to the others: it has
no record exactly if one of its sets is complemented. Otherwise the object that
is read from its record, into a table of its own, has the same functions, loops
and statements in the same order with the same bitmaps, and the same record. -/
theorem object_survives_its_record {s : SymbolStore} (h : s.Built)
    {object : Handle} {c : ObjectContents} (hc : s.contents? object = some c) :
    (∀ error, c.toRecord = .error error ↔
      error = .complementedSet ∧
        ∃ set ∈ c.sets, set.complemented = true) ∧
    ((∀ set ∈ c.sets, set.complemented = false) →
      ∃ m rebuilt, c.toRecord = .ok m ∧
        ObjectContents.ofRecord m = .ok rebuilt ∧
        (s.addObject rebuilt).1.contents? (s.addObject rebuilt).2.handle =
          some rebuilt ∧
        rebuilt = c ∧ rebuilt.toRecord = .ok m) := by
  refine ⟨c.toRecord_eq_error_iff, ?_⟩
  intro hplain
  rcases ObjectContents.exists_record (h.partitioned.contents? hc) hplain with
    ⟨m, hm, hread⟩
  exact ⟨m, c, hm, hread, contents?_addObject s c, rfl, hm⟩

def sharedTable : SymbolStore :=
  let s := (addTable ∅ ∅).1
  let s := (s.addContents 0 (.new ⟨"/bin/a", 1⟩)).1
  let s := (s.addContents 0 (.new ⟨"/bin/b", 0⟩)).1
  let s := (s.addFunction ⟨0, 1⟩ "g").1
  let s := (s.addFunction ⟨0, 0⟩ "f").1
  let s := s.addFunctionRanges ⟨0, 0⟩ AddressSet.empty.complement
  let s := s.addFunctionRanges ⟨0, 1⟩
    (.ofStored [⟨0x100000000, 0x10000000F⟩] false)
  s.addFunctionRanges ⟨0, 1⟩ (.ofStored [⟨0, 0xFFFFFFFF⟩] false)

def wideSet : AddressSet :=
  .ofStored [⟨0, 0x10000000F⟩] false

theorem object_survives_its_record_cut_at_limit :
    sharedTable.Built ∧
      sharedTable.contents? ⟨0, 0⟩ =
        some ⟨⟨"/bin/a", 1⟩, [⟨"f", wideSet⟩], [], []⟩ ∧
      wideSet.bitmaps.map Bitmap.range =
        [⟨0, 0xFFFFFFFF⟩, ⟨0x100000000, 0x10000000F⟩] ∧
      (∃ m, ObjectContents.toRecord
          ⟨⟨"/bin/a", 1⟩, [⟨"f", wideSet⟩], [], []⟩ = .ok m ∧
        ObjectContents.ofRecord m =
          .ok ⟨⟨"/bin/a", 1⟩, [⟨"f", wideSet⟩], [], []⟩) ∧
      ∃ c, sharedTable.contents? ⟨0, 1⟩ = some c ∧
        c.toRecord = .error .complementedSet := by
  have hbuilt : sharedTable.Built :=
    .functionRanges _ _ (.functionRanges _ _ (.functionRanges _ _
      (.function _ _ (.function _ _ (.object _ _ (.object _ _
        (.table .empty)))))))
  have hfirst : sharedTable.contents? ⟨0, 0⟩ =
      some ⟨⟨"/bin/a", 1⟩, [⟨"f", wideSet⟩], [], []⟩ := by
    cbv
  have hsecond : sharedTable.contents? ⟨0, 1⟩ =
      some ⟨⟨"/bin/b", 0⟩, [⟨"g", AddressSet.empty.complement⟩], [], []⟩ := by
    cbv
  refine ⟨hbuilt, hfirst, by cbv, ?_, _, hsecond, ?_⟩
  · rcases (object_survives_its_record hbuilt hfirst).2 (by decide) with
      ⟨m, rebuilt, hm, hread, _, rfl, _⟩
    exact ⟨m, hm, hread⟩
  · exact ((object_survives_its_record hbuilt hsecond).1 _).mpr
      ⟨rfl, by decide⟩

end SymbolStore
end CudaProfile
