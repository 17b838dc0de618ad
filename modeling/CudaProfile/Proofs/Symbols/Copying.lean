import CudaProfile.Proofs.Symbols.Reading
/-!
# Copies of objects

The symbols of all objects of a table stand in the same lists, and every entry
names its object by a number. So an object sees nothing of what is added to
another one: entries are only ever appended or given more addresses, and they
name the other object. A copy gets a number that no entry names yet, as long as
every entry belongs to an object of its table. Then the copy has the symbols of
the original and no others, also in the table of the original.
-/

namespace CudaProfile

/-! ## Entries of one object -/

namespace Entry

variable {α : Type}

theorem ofOwner_append_of_ne {owner : Nat} (entries : List (Entry α))
    {more : List (Entry α)} (h : ∀ e ∈ more, e.owner ≠ owner) :
    ofOwner owner (entries ++ more) = ofOwner owner entries := by
  have hnone : ((more.zipIdx (0 + entries.length)).filter
      fun e => e.1.owner = owner) = [] := by
    apply List.filter_eq_nil_iff.mpr
    intro e he
    simpa using h e.1 (List.fst_mem_of_mem_zipIdx he)
  unfold ofOwner
  rw [List.zipIdx_append, List.filter_append, hnone, List.append_nil]

theorem ofOwner_addRanges_of_ne {owner id : Nat} {entries : List (Entry α)}
    (h : ∀ e, entries[id]? = some e → e.owner ≠ owner) (ranges : AddressSet) :
    ofOwner owner (addRanges id ranges entries) = ofOwner owner entries := by
  have hspared : ∀ e, entries[id]? = some e →
      decide (e.owner = owner) = false ∧
        decide ((⟨e.owner, e.symbol.addRanges ranges⟩ : Entry α).owner =
          owner) = false :=
    fun e he => ⟨decide_eq_false (h e he), decide_eq_false (h e he)⟩
  unfold ofOwner addRanges
  rw [filter_zipIdx_modify (p := fun e : Entry α => e.owner = owner)
    hspared 0]

theorem symbolsOf_eq_filter (owner : Nat) (entries : List (Entry α)) :
    symbolsOf owner entries =
      (entries.filter fun e => e.owner = owner).map Entry.symbol := by
  have hplaces : (entries.filter fun e => e.owner = owner) =
      (ofOwner owner entries).map Prod.fst := by
    conv_lhs => rw [← List.zipIdx_map_fst 0 entries, List.filter_map]
    rfl
  rw [hplaces, List.map_map]
  rfl

def Owned (count : Nat) (entries : List (Entry α)) : Prop :=
  ∀ e ∈ entries, e.owner < count

section Owned

variable {count : Nat} {entries : List (Entry α)}

theorem Owned.grow (h : Owned count entries) : Owned (count + 1) entries :=
  fun e he => Nat.lt_succ_of_lt (h e he)

theorem Owned.append (h : Owned count entries) {owner : Nat}
    (howner : owner < count) (symbols : List (Symbol α)) :
    Owned count (entries ++ symbols.map fun s => ⟨owner, s⟩) := by
  intro e he
  rcases List.mem_append.mp he with hold | hnew
  · exact h e hold
  · rcases List.mem_map.mp hnew with ⟨s, _, rfl⟩
    exact howner

theorem Owned.addRanges (h : Owned count entries) (id : Nat)
    (ranges : AddressSet) : Owned count (Entry.addRanges id ranges entries) := by
  intro e he
  rcases of_mem_modify he with hold | ⟨old, hold, rfl⟩
  · exact h e hold
  · exact h old hold

theorem Owned.symbolsOf_append (h : Owned count entries)
    (symbols : List (Symbol α)) :
    symbolsOf count (entries ++ symbols.map fun s => ⟨count, s⟩) = symbols := by
  have hnone : (entries.filter fun e => e.owner = count) = [] := by
    apply List.filter_eq_nil_iff.mpr
    intro e he
    simpa using Nat.ne_of_lt (h e he)
  rw [symbolsOf_eq_filter, List.filter_append, hnone, List.nil_append,
    ← symbolsOf_eq_filter, symbolsOf_map]

end Owned

end Entry

/-! ## What a table holds of an object -/

/-- The file of an object, and its entries with their numbers in the table. -/
structure ObjectEntries where
  file : FileName
  functions : List (Entry String × Nat)
  loops : List (Entry Address × Nat)
  statements : List (Entry SourcePlace × Nat)
deriving DecidableEq

def ObjectEntries.contents (o : ObjectEntries) : ObjectContents where
  file := o.file
  functions := o.functions.map fun e => e.1.symbol
  loops := o.loops.map fun e => e.1.symbol
  statements := o.statements.map fun e => e.1.symbol

namespace SymbolTable

def entries? (t : SymbolTable) (object : Nat) : Option ObjectEntries :=
  t.objects[object]?.map fun file =>
    { file
      functions := Entry.ofOwner object t.functions
      loops := Entry.ofOwner object t.loops
      statements := Entry.ofOwner object t.statements }

theorem contents?_eq_map (t : SymbolTable) (object : Nat) :
    t.contents? object = (t.entries? object).map ObjectEntries.contents := by
  unfold contents? entries?
  rw [Option.map_map]
  rfl

theorem lt_of_entries?_eq_some {t : SymbolTable} {object : Nat}
    {o : ObjectEntries} (h : t.entries? object = some o) :
    object < t.objects.length := by
  rcases Option.map_eq_some_iff.mp h with ⟨file, hfile, _⟩
  exact (List.getElem?_eq_some_iff.mp hfile).1

theorem entries?_length (t : SymbolTable) :
    t.entries? t.objects.length = none := by
  unfold entries?
  rw [List.getElem?_eq_none (Nat.le_refl _)]
  rfl

/-! ### What is added to other objects -/

section Others

variable {t : SymbolTable} {object owner : Nat}

theorem entries?_addContents (h : object < t.objects.length)
    (c : ObjectContents) :
    (t.addContents c).entries? object = t.entries? object := by
  have hother : t.objects.length ≠ object := Nat.ne_of_gt h
  unfold entries? addContents
  simp only
  rw [List.getElem?_append_left h, Entry.ofOwner_append_of_ne,
    Entry.ofOwner_append_of_ne, Entry.ofOwner_append_of_ne]
  · simpa using fun _ _ => hother
  · simpa using fun _ _ => hother
  · simpa using fun _ _ => hother

theorem entries?_addFunction (h : owner ≠ object) (name : String) :
    (t.addFunction owner name).entries? object = t.entries? object := by
  unfold entries? addFunction
  simp only
  rw [Entry.ofOwner_append_of_ne]
  simpa using h

theorem entries?_addLoop (h : owner ≠ object) (head : Address) :
    (t.addLoop owner head).entries? object = t.entries? object := by
  unfold entries? addLoop
  simp only
  rw [Entry.ofOwner_append_of_ne]
  simpa using h

theorem entries?_addStatement (h : owner ≠ object) (place : SourcePlace) :
    (t.addStatement owner place).entries? object = t.entries? object := by
  unfold entries? addStatement
  simp only
  rw [Entry.ofOwner_append_of_ne]
  simpa using h

theorem entries?_addFunctionRanges {id : Nat}
    (h : ∀ e, t.functions[id]? = some e → e.owner ≠ object)
    (ranges : AddressSet) :
    (t.addFunctionRanges id ranges).entries? object = t.entries? object := by
  unfold entries? addFunctionRanges
  simp only
  rw [Entry.ofOwner_addRanges_of_ne h]

theorem entries?_addLoopRanges {id : Nat}
    (h : ∀ e, t.loops[id]? = some e → e.owner ≠ object)
    (ranges : AddressSet) :
    (t.addLoopRanges id ranges).entries? object = t.entries? object := by
  unfold entries? addLoopRanges
  simp only
  rw [Entry.ofOwner_addRanges_of_ne h]

theorem entries?_addStatementRanges {id : Nat}
    (h : ∀ e, t.statements[id]? = some e → e.owner ≠ object)
    (ranges : AddressSet) :
    (t.addStatementRanges id ranges).entries? object = t.entries? object := by
  unfold entries? addStatementRanges
  simp only
  rw [Entry.ofOwner_addRanges_of_ne h]

end Others

/-! ### Entries belong to objects -/

structure Owned (t : SymbolTable) : Prop where
  functions : Entry.Owned t.objects.length t.functions
  loops : Entry.Owned t.objects.length t.loops
  statements : Entry.Owned t.objects.length t.statements

theorem owned_empty : Owned ∅ := by
  constructor
  · intro e he
    cases he
  · intro e he
    cases he
  · intro e he
    cases he

theorem Owned.addContents {t : SymbolTable} (h : t.Owned) (c : ObjectContents) :
    (t.addContents c).Owned := by
  have hcount : (t.addContents c).objects.length = t.objects.length + 1 :=
    List.length_append
  have hnew := Nat.lt_succ_self t.objects.length
  constructor
  · rw [hcount]
    exact h.functions.grow.append hnew c.functions
  · rw [hcount]
    exact h.loops.grow.append hnew c.loops
  · rw [hcount]
    exact h.statements.grow.append hnew c.statements

theorem Owned.contents?_addContents {t : SymbolTable} (h : t.Owned)
    (c : ObjectContents) :
    (t.addContents c).contents? t.objects.length = some c := by
  unfold SymbolTable.contents? SymbolTable.addContents
  simp only
  rw [List.getElem?_append_right (Nat.le_refl _), Nat.sub_self,
    h.functions.symbolsOf_append, h.loops.symbolsOf_append,
    h.statements.symbolsOf_append]
  rfl

end SymbolTable

/-! ## Stores -/

namespace SymbolStore

def entries? (s : SymbolStore) (object : Handle) : Option ObjectEntries :=
  (s.table object.table).entries? object.id

theorem contents?_eq_map (s : SymbolStore) (object : Handle) :
    s.contents? object = (s.entries? object).map ObjectEntries.contents :=
  (s.table object.table).contents?_eq_map object.id

theorem table_addTable (s : SymbolStore) (number : Nat) :
    (s.addTable ∅).1.table number = s.table number := by
  unfold table addTable
  simp only
  rcases Nat.lt_trichotomy number s.tables.length with hlt | rfl | hgt
  · rw [List.getElem?_append_left hlt]
  · rw [List.getElem?_append_right (Nat.le_refl _), Nat.sub_self,
      List.getElem?_eq_none (Nat.le_refl _)]
    rfl
  · rw [List.getElem?_eq_none (by simpa using hgt),
      List.getElem?_eq_none (Nat.le_of_lt hgt)]

theorem table_modify (s : SymbolStore) (number other : Nat)
    (f : SymbolTable → SymbolTable) :
    (s.modify number f).table other =
      if number = other ∧ number < s.tables.length then f (s.table other)
      else s.table other := by
  unfold table modify
  simp only
  rw [List.getElem?_modify]
  by_cases hsame : number = other
  · subst hsame
    by_cases hlt : number < s.tables.length
    · simp [hlt]
    · simp [hlt]
  · simp [hsame]

theorem entries?_modify {s : SymbolStore} {object : Handle} {number : Nat}
    {f : SymbolTable → SymbolTable}
    (h : number = object.table →
      (f (s.table number)).entries? object.id =
        (s.table number).entries? object.id) :
    (s.modify number f).entries? object = s.entries? object := by
  unfold entries?
  rw [table_modify]
  split
  · next hsame =>
    rw [← hsame.1]
    exact h hsame.1
  · rfl

def Owned (s : SymbolStore) : Prop :=
  ∀ number, (s.table number).Owned

theorem Owned.modify {s : SymbolStore} (h : s.Owned) {number : Nat}
    {f : SymbolTable → SymbolTable} (hf : (f (s.table number)).Owned) :
    (s.modify number f).Owned := by
  intro other
  rw [table_modify]
  split
  · next hsame =>
    rw [← hsame.1]
    exact hf
  · exact h other

theorem Owned.addContents {s : SymbolStore} (h : s.Owned) (number : Nat)
    (c : ObjectContents) : (s.addContents number c).1.Owned :=
  h.modify ((h number).addContents c)

theorem Owned.addTable {s : SymbolStore} (h : s.Owned) :
    (s.addTable ∅).1.Owned := by
  intro number
  rw [table_addTable]
  exact h number

theorem Owned.addObject {s : SymbolStore} (h : s.Owned) (c : ObjectContents) :
    (s.addObject c).1.Owned :=
  h.addTable.addContents s.tables.length c

theorem Owned.contents?_addContents {s : SymbolStore} (h : s.Owned)
    {number : Nat} (hnumber : number < s.tables.length) (c : ObjectContents) :
    (s.addContents number c).1.contents?
      (s.addContents number c).2.handle = some c := by
  have htable : (s.addContents number c).1.table number =
      (s.table number).addContents c := by
    unfold SymbolStore.addContents
    simp only
    rw [table_modify, if_pos ⟨rfl, hnumber⟩]
  change ((s.addContents number c).1.table number).contents?
    (s.table number).objects.length = _
  rw [htable]
  exact (h number).contents?_addContents c

theorem entries?_addTable (s : SymbolStore) (object : Handle) :
    (s.addTable ∅).1.entries? object = s.entries? object := by
  unfold entries?
  rw [table_addTable]

theorem entries?_addContents {s : SymbolStore} {object : Handle}
    {o : ObjectEntries} (h : s.entries? object = some o) (number : Nat)
    (c : ObjectContents) :
    (s.addContents number c).1.entries? object = some o := by
  rw [← h]
  apply entries?_modify
  rintro rfl
  exact SymbolTable.entries?_addContents
    (SymbolTable.lt_of_entries?_eq_some h) c

theorem entries?_addObject {s : SymbolStore} {object : Handle}
    {o : ObjectEntries} (h : s.entries? object = some o) (c : ObjectContents) :
    (s.addObject c).1.entries? object = some o :=
  entries?_addContents ((s.entries?_addTable object).trans h)
    s.tables.length c

/-! ## Additions -/

/-- What can be added to a store: tables, objects, symbols of an object, and
addresses of a symbol. An object can also be copied into a table or into a new
one, or read from a record. -/
inductive Addition where
  | table
  | object (number : Nat) (file : FileName)
  | function (object : Handle) (name : String)
  | loop (object : Handle) (head : Address)
  | statement (object : Handle) (place : SourcePlace)
  | functionRanges (function : Handle) (ranges : AddressSet)
  | loopRanges (loop : Handle) (ranges : AddressSet)
  | statementRanges (statement : Handle) (ranges : AddressSet)
  | copy (object : Handle) (number : Nat)
  | deepCopy (object : Handle)
  | record (r : SymbolTableRecord)

def has (s : SymbolStore) (object : Handle) : Bool :=
  object.id < (s.table object.table).objects.length

/-- The store with an addition. Handles come from the store, so one that names
nothing in it adds nothing. -/
def add (s : SymbolStore) : Addition → SymbolStore
  | .table => (s.addTable ∅).1
  | .object number file => (s.addContents number (.new file)).1
  | .function object name =>
      if s.has object then (s.addFunction object name).1 else s
  | .loop object head => if s.has object then (s.addLoop object head).1 else s
  | .statement object place =>
      if s.has object then (s.addStatement object place).1 else s
  | .functionRanges function ranges => s.addFunctionRanges function ranges
  | .loopRanges loop ranges => s.addLoopRanges loop ranges
  | .statementRanges statement ranges => s.addStatementRanges statement ranges
  | .copy object number => ((s.copyInto object number).map Prod.fst).getD s
  | .deepCopy object => ((s.deepCopy object).map Prod.fst).getD s
  | .record r =>
      match ObjectContents.ofRecord r with
      | .ok c => (s.addObject c).1
      | .error _ => s

def afterAdditions (s : SymbolStore) (additions : List Addition) :
    SymbolStore :=
  additions.foldl add s

def Addition.target? (s : SymbolStore) : Addition → Option Handle
  | .function owner _ | .loop owner _ | .statement owner _ => some owner
  | .functionRanges handle _ =>
      (s.function? handle).map fun e => ⟨handle.table, e.owner⟩
  | .loopRanges handle _ =>
      (s.loop? handle).map fun e => ⟨handle.table, e.owner⟩
  | .statementRanges handle _ =>
      (s.statement? handle).map fun e => ⟨handle.table, e.owner⟩
  | .table | .object .. | .copy .. | .deepCopy .. | .record .. => none

def spares (object : Handle) : SymbolStore → List Addition → Bool
  | _, [] => true
  | s, a :: rest =>
      a.target? s ≠ some object && spares object (s.add a) rest

theorem owned_empty : Owned ∅ :=
  fun _ => SymbolTable.owned_empty

theorem Owned.add {s : SymbolStore} (h : s.Owned) (a : Addition) :
    (s.add a).Owned := by
  cases a with
  | table =>
      exact h.addTable
  | object number file =>
      exact h.addContents number _
  | function object name =>
      simp only [SymbolStore.add]
      split
      · next hhas =>
        have htable := h object.table
        refine h.modify { htable with functions := ?_ }
        exact htable.functions.append (of_decide_eq_true hhas) [.new name]
      · exact h
  | loop object head =>
      simp only [SymbolStore.add]
      split
      · next hhas =>
        have htable := h object.table
        refine h.modify { htable with loops := ?_ }
        exact htable.loops.append (of_decide_eq_true hhas) [.new head]
      · exact h
  | statement object place =>
      simp only [SymbolStore.add]
      split
      · next hhas =>
        have htable := h object.table
        refine h.modify { htable with statements := ?_ }
        exact htable.statements.append (of_decide_eq_true hhas) [.new place]
      · exact h
  | functionRanges function ranges =>
      have htable := h function.table
      exact h.modify
        { htable with functions := htable.functions.addRanges _ ranges }
  | loopRanges loop ranges =>
      have htable := h loop.table
      exact h.modify { htable with loops := htable.loops.addRanges _ ranges }
  | statementRanges statement ranges =>
      have htable := h statement.table
      exact h.modify
        { htable with statements := htable.statements.addRanges _ ranges }
  | copy object number =>
      simp only [SymbolStore.add, copyInto]
      cases s.contents? object with
      | none =>
          exact h
      | some c =>
          exact h.addContents number c
  | deepCopy object =>
      simp only [SymbolStore.add, deepCopy]
      cases s.contents? object with
      | none =>
          exact h
      | some c =>
          exact h.addObject c
  | record r =>
      simp only [SymbolStore.add]
      cases ObjectContents.ofRecord r with
      | error error =>
          exact h
      | ok c =>
          exact h.addObject c

theorem Owned.afterAdditions {s : SymbolStore} (h : s.Owned)
    (additions : List Addition) : (s.afterAdditions additions).Owned := by
  induction additions generalizing s with
  | nil =>
      exact h
  | cons a rest ih =>
      exact ih (h.add a)

theorem ne_of_map_ne {α β : Type} {f : α → β} {x : Option α} {b : β}
    (h : x.map f ≠ some b) {a : α} (ha : x = some a) : f a ≠ b := by
  rintro rfl
  exact h (congrArg (Option.map f) ha)

theorem entries?_add {s : SymbolStore} {object : Handle} {o : ObjectEntries}
    (h : s.entries? object = some o) {a : Addition}
    (hspared : a.target? s ≠ some object) :
    (s.add a).entries? object = some o := by
  -- In one table two objects differ by their numbers.
  have hother : ∀ {owner : Handle}, owner ≠ object →
      owner.table = object.table → owner.id ≠ object.id := by
    intro owner hne htable hid
    apply hne
    cases owner
    cases object
    simp_all
  cases a with
  | table =>
      exact (s.entries?_addTable object).trans h
  | object number file =>
      exact entries?_addContents h number _
  | function owner name =>
      have hne : owner ≠ object := fun heq => hspared (congrArg some heq)
      simp only [add]
      split
      · rw [← h]
        exact entries?_modify fun htable =>
          SymbolTable.entries?_addFunction (hother hne htable) name
      · exact h
  | loop owner head =>
      have hne : owner ≠ object := fun heq => hspared (congrArg some heq)
      simp only [add]
      split
      · rw [← h]
        exact entries?_modify fun htable =>
          SymbolTable.entries?_addLoop (hother hne htable) head
      · exact h
  | statement owner place =>
      have hne : owner ≠ object := fun heq => hspared (congrArg some heq)
      simp only [add]
      split
      · rw [← h]
        exact entries?_modify fun htable =>
          SymbolTable.entries?_addStatement (hother hne htable) place
      · exact h
  | functionRanges function ranges =>
      rw [← h]
      refine entries?_modify fun htable =>
        SymbolTable.entries?_addFunctionRanges ?_ ranges
      intro e he
      have hne : (⟨function.table, e.owner⟩ : Handle) ≠ object :=
        ne_of_map_ne hspared he
      exact hother hne htable
  | loopRanges loop ranges =>
      rw [← h]
      refine entries?_modify fun htable =>
        SymbolTable.entries?_addLoopRanges ?_ ranges
      intro e he
      have hne : (⟨loop.table, e.owner⟩ : Handle) ≠ object :=
        ne_of_map_ne hspared he
      exact hother hne htable
  | statementRanges statement ranges =>
      rw [← h]
      refine entries?_modify fun htable =>
        SymbolTable.entries?_addStatementRanges ?_ ranges
      intro e he
      have hne : (⟨statement.table, e.owner⟩ : Handle) ≠ object :=
        ne_of_map_ne hspared he
      exact hother hne htable
  | copy original number =>
      simp only [add, copyInto]
      cases s.contents? original with
      | none =>
          exact h
      | some c =>
          exact entries?_addContents h number c
  | deepCopy original =>
      simp only [add, deepCopy]
      cases s.contents? original with
      | none =>
          exact h
      | some c =>
          exact entries?_addObject h c
  | record r =>
      simp only [add]
      cases ObjectContents.ofRecord r with
      | error error =>
          exact h
      | ok c =>
          exact entries?_addObject h c

/-- Whether an object has entries, and has them still when anything is added
that is not for it. -/
def Keeps (s : SymbolStore) (object : Handle) (o : ObjectEntries) : Prop :=
  ∀ later, spares object s later = true →
    (s.afterAdditions later).entries? object = some o

theorem keeps_of_entries? {s : SymbolStore} {object : Handle}
    {o : ObjectEntries} (h : s.entries? object = some o) :
    s.Keeps object o := by
  intro later hspared
  induction later generalizing s with
  | nil =>
      exact h
  | cons a rest ih =>
      rcases (Bool.and_eq_true _ _).mp hspared with ⟨hfirst, hrest⟩
      exact ih (entries?_add h (of_decide_eq_true hfirst)) hrest

/-! ## Copies -/

/-- In whatever way a store came about, an object of it can be copied into any of
its tables. The copy is new, and has the file of the original and its symbols in
their order. All objects there were keep their entries, and they and the copy
change no more when anything is added to others. -/
theorem copies_are_isolated (additions : List Addition) {object : Handle}
    {original : ObjectEntries} {number : Nat}
    (hobject : (afterAdditions ∅ additions).entries? object = some original)
    (hnumber : number < (afterAdditions ∅ additions).tables.length) :
    let s := afterAdditions ∅ additions
    ∃ t copy copied, s.copyInto object number = some (t, copy) ∧
      copy.handle.table = number ∧ s.entries? copy.handle = none ∧
      copy.file = original.file ∧ copied.contents = original.contents ∧
      t.Keeps copy.handle copied ∧
      ∀ old o, s.entries? old = some o → t.Keeps old o := by
  intro s
  have howned : s.Owned := owned_empty.afterAdditions additions
  have hcontents : s.contents? object = some original.contents := by
    rw [contents?_eq_map, hobject]
    rfl
  have hcopied := howned.contents?_addContents hnumber original.contents
  rw [contents?_eq_map] at hcopied
  rcases Option.map_eq_some_iff.mp hcopied with ⟨copied, hentries, hsame⟩
  refine ⟨_, _, copied, congrArg (Option.map _) hcontents, rfl, ?_, rfl, hsame,
    keeps_of_entries? hentries, ?_⟩
  · exact (s.table number).entries?_length
  · intro old o hold
    exact keeps_of_entries? (entries?_addContents hold number _)

def neighbours : List Addition :=
  [.table, .object 0 ⟨"/bin/a", 1⟩, .object 0 ⟨"/bin/b", 0⟩,
    .function ⟨0, 1⟩ "g", .function ⟨0, 0⟩ "f",
    .functionRanges ⟨0, 1⟩ (.ofStored [⟨8, 9⟩] false),
    .loop ⟨0, 0⟩ 8]

/-- The first object is copied into its own table, and its copy gets a statement
and further addresses for the function. -/
theorem copies_are_isolated_in_own_table :
    let s := afterAdditions ∅ neighbours
    let later : List Addition :=
      [.statement ⟨0, 2⟩ ⟨⟨"a.c", 0⟩, 4, 1⟩,
        .functionRanges ⟨0, 2⟩ AddressSet.empty.complement]
    ∃ original t copy, s.entries? ⟨0, 0⟩ = some original ∧
      s.copyInto ⟨0, 0⟩ 0 = some (t, copy) ∧ copy.handle = ⟨0, 2⟩ ∧
      t.contents? ⟨0, 2⟩ = some original.contents ∧
      (t.afterAdditions later).contents? ⟨0, 2⟩ ≠ some original.contents ∧
      (t.afterAdditions later).entries? ⟨0, 0⟩ = some original := by
  intro s later
  have hobject : s.entries? ⟨0, 0⟩ =
      some ⟨⟨"/bin/a", 1⟩, [(⟨0, "f", .ofStored [⟨8, 9⟩] false⟩, 1)],
        [(⟨0, 8, .empty⟩, 0)], []⟩ := by
    decide +kernel
  have hnumber : 0 < s.tables.length := by
    decide +kernel
  rcases copies_are_isolated neighbours hobject hnumber with
    ⟨t, copy, copied, hcopy, _, _, _, hsame, hkept, hothers⟩
  have ht : t = ((s.copyInto ⟨0, 0⟩ 0).map Prod.fst).getD s := by
    rw [hcopy]
    rfl
  have hhandle : copy.handle = ⟨0, 2⟩ := by
    have hmap := congrArg (Option.map fun e => e.2.handle) hcopy
    exact (Option.some.inj hmap).symm
  have hcopied : t.entries? copy.handle = some copied := hkept [] rfl
  refine ⟨_, t, copy, hobject, hcopy, hhandle, ?_, ?_, ?_⟩
  · rw [contents?_eq_map, ← hhandle, hcopied, ← hsame]
    rfl
  · rw [ht]
    decide +kernel
  · apply hothers ⟨0, 0⟩ _ hobject
    rw [ht]
    decide +kernel

end SymbolStore
end CudaProfile
