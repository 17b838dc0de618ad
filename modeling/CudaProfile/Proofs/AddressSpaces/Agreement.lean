import CudaProfile.Proofs.AddressSet.RangeList
import CudaProfile.Proofs.AddressSpaces.Indexes
import CudaProfile.Proofs.Outcome
/-!
# Address spaces and their mappings

What the queries of address spaces find is what a search through all mappings
finds, after any sequence of loads, unloads and records, refused ones included.
A linked object that is made gets a table of its own, so an object that takes
the place of another one is mapped nowhere before.
-/

namespace CudaProfile

open Std Lexicographic

namespace AddressSpaces

/-! ## Linked objects already made -/

structure Made (bound : Nat) (s : AddressSpaces) : Prop where
  mapped : ∀ m ∈ s.mappings, m.object.handle.table < bound
  known : ∀ key objects, s.objects.get? key = some objects →
    ∀ object ∈ objects, object.handle.table < bound

section Made

variable {bound : Nat} {s : AddressSpaces}

theorem made_empty : Made bound ∅ := by
  constructor
  · intro m hm
    cases hm
  · intro key objects hget
    cases hget

theorem Made.mono (h : Made bound s) {bound' : Nat} (hle : bound ≤ bound') :
    Made bound' s := by
  constructor
  · intro m hm
    exact Nat.lt_of_lt_of_le (h.mapped m hm) hle
  · intro key objects hget object hobject
    exact Nat.lt_of_lt_of_le (h.known key objects hget object hobject) hle

theorem Made.insert (h : Made bound s) {m : Mapping}
    (hm : m.object.handle.table < bound) : Made bound (s.insert m) := by
  constructor
  · intro n hn
    rcases List.mem_append.mp hn with hold | hnew
    · exact h.mapped n hold
    · rw [List.mem_singleton.mp hnew]
      exact hm
  · exact h.known

theorem Made.unload (h : Made bound s) (thread : ThreadName)
    (object : LinkedObject) (time : Time) :
    Made bound (s.unload thread object time).state := by
  rcases s.unload_state thread object time with ⟨mappings, hkeys, hstate⟩
  rw [hstate]
  constructor
  · intro m hm
    have hkey : threadObject m ∈ s.mappings.map threadObject := by
      rw [← hkeys]
      exact List.mem_map_of_mem hm
    rcases List.mem_map.mp hkey with ⟨n, hn, heq⟩
    have hhandle : n.object.handle = m.object.handle := congrArg Prod.snd heq
    rw [← hhandle]
    exact h.mapped n hn
  · exact h.known

theorem Made.learn (h : Made bound s) {object : LinkedObject}
    (hobject : object.handle.table < bound) : Made bound (s.learn object) := by
  constructor
  · exact h.mapped
  · intro key objects hget other hother
    unfold AddressSpaces.learn at hget
    rw [OrderedMap.get?_alter] at hget
    split at hget
    · cases hget
      rcases List.mem_append.mp hother with hold | hnew
      · cases hknown : s.objects.get? (Path.components object.file.path) with
        | none =>
            rw [hknown] at hold
            cases hold
        | some known =>
            rw [hknown] at hold
            exact h.known _ known hknown other hold
      · rw [List.mem_singleton.mp hnew]
        exact hobject
    · exact h.known key objects hget other hother

theorem mem_exchangeFirst {former object other : LinkedObject}
    {known : List LinkedObject}
    (h : other ∈ exchangeFirst former object known) :
    other = object ∨ other ∈ known := by
  induction known with
  | nil =>
      cases h
  | cons first rest ih =>
      unfold exchangeFirst at h
      split at h
      · rcases List.mem_cons.mp h with hnew | hold
        · exact Or.inl hnew
        · exact Or.inr (List.mem_cons_of_mem _ hold)
      · rcases List.mem_cons.mp h with hfirst | hrest
        · exact Or.inr (hfirst ▸ List.mem_cons_self)
        · exact (ih hrest).imp_right (List.mem_cons_of_mem _)

theorem Made.of_object? (h : Made bound s) {file : FileName}
    {object : LinkedObject} (hobject : s.object? file = some object) :
    object.handle.table < bound := by
  have hmem := List.mem_of_find?_eq_some hobject
  cases hknown : s.objects.get? (Path.components file.path) with
  | none =>
      rw [hknown] at hmem
      cases hmem
  | some known =>
      rw [hknown] at hmem
      exact h.known _ known hknown object hmem

theorem Made.exchange (h : Made bound s) (hindexed : Indexed s)
    {former object : LinkedObject} (hne : former.handle ≠ object.handle)
    (hobject : object.handle.table < bound) :
    Made bound (s.exchange former object) := by
  constructor
  · intro m hm
    rw [hindexed.exchange_mappings hne] at hm
    rcases List.mem_map.mp hm with ⟨n, hn, heq⟩
    rw [← heq, exchanged_handle]
    split
    · exact hobject
    · exact h.mapped n hn
  · intro key objects hget other hother
    rw [exchange_objects hne] at hget
    unfold exchangeStart at hget
    cases hknown : s.objects.get? (Path.components object.file.path) with
    | none =>
        rw [hknown] at hget
        exact h.known key objects hget other hother
    | some known =>
        simp only [hknown] at hget
        rw [OrderedMap.get?_insert] at hget
        split at hget
        · cases hget
          rcases mem_exchangeFirst hother with hnew | hold
          · rw [hnew]
            exact hobject
          · exact h.known _ known hknown other hold
        · exact h.known key objects hget other hother

end Made

end AddressSpaces

/-! ## Applications -/

namespace Application

/-- The indexes agree with the mappings, and every object in use is of a table
of the store. -/
structure Sound (a : Application) : Prop where
  indexed : AddressSpaces.Indexed a.spaces
  made : AddressSpaces.Made a.symbols.tables.length a.spaces

theorem sound_empty (symbols : SymbolStore) : Sound ⟨symbols, ∅⟩ :=
  ⟨AddressSpaces.indexed_empty, AddressSpaces.made_empty⟩

theorem addObject_handle (symbols : SymbolStore) (c : ObjectContents) :
    (symbols.addObject c).2.handle.table = symbols.tables.length :=
  rfl

theorem addObject_length (symbols : SymbolStore) (c : ObjectContents) :
    (symbols.addObject c).1.tables.length = symbols.tables.length + 1 := by
  change ((symbols.tables ++ [∅]).modify _ _).length = _
  rw [List.length_modify, List.length_append]
  rfl

section Sound

variable {a : Application}

theorem Sound.insert (h : Sound a) {m : Mapping}
    (hm : m.object.handle.table < a.symbols.tables.length) :
    Sound (a.withSpaces (a.spaces.insert m)) :=
  ⟨h.indexed.insert m, h.made.insert hm⟩

theorem Sound.unload (h : Sound a) (thread : ThreadName)
    (object : LinkedObject) (time : Time) :
    Sound (a.withSpaces (a.spaces.unload thread object time).state) :=
  ⟨h.indexed.unload thread object time, h.made.unload thread object time⟩

theorem Sound.withSymbols (h : Sound a) {symbols : SymbolStore}
    (hle : a.symbols.tables.length ≤ symbols.tables.length) :
    Sound ⟨symbols, a.spaces⟩ :=
  ⟨h.indexed, h.made.mono hle⟩

theorem Sound.objectOf (h : Sound a) (file : FileName) :
    Sound (a.objectOf file).1 ∧
      (a.objectOf file).2.handle.table <
        (a.objectOf file).1.symbols.tables.length := by
  unfold Application.objectOf
  split
  · next object hobject =>
    exact ⟨h, h.made.of_object? hobject⟩
  · have hlength := addObject_length a.symbols (.new file)
    have hbelow : (a.symbols.addObject (.new file)).2.handle.table <
        (a.symbols.addObject (.new file)).1.tables.length := by
      rw [addObject_handle, hlength]
      exact Nat.lt_succ_self _
    refine ⟨⟨?_, ?_⟩, hbelow⟩
    · exact h.indexed.congr rfl rfl rfl rfl
    · apply AddressSpaces.Made.learn
      · apply h.made.mono
        rw [hlength]
        exact Nat.le_succ _
      · exact hbelow

theorem Sound.map (h : Sound a) (thread : ThreadName) (r : MappedObjectRecord) :
    Sound (map thread a r) :=
  (h.objectOf r.object).1.insert (h.objectOf r.object).2

theorem Sound.applyGroup (h : Sound a) (r : ObjectGroupRecord) :
    Sound (a.applyGroup r) := by
  unfold Application.applyGroup
  induction r.objects generalizing a with
  | nil =>
      exact h
  | cons object rest ih =>
      exact ih (h.map r.thread.name object)

theorem Sound.applyLoaded (h : Sound a) (r : LoadedRecord) :
    Sound (a.applyLoaded r) := by
  rcases h.objectOf r.object with ⟨hsound, hobject⟩
  unfold Application.applyLoaded
  simp only
  generalize a.objectOf r.object = found at hsound hobject
  rcases found with ⟨b, object⟩
  simp only at hsound hobject ⊢
  induction r.threads generalizing b with
  | nil =>
      exact hsound
  | cons thread rest ih =>
      have hbelow : object.handle.table <
          (b.withSpaces (b.spaces.load thread.name object (.ofHalfOpen r.range)
            r.time r.executable)).symbols.tables.length := hobject
      exact ih _ (hsound.insert hobject) hbelow

theorem Sound.applyUnloaded (h : Sound a) (r : UnloadedRecord) :
    Sound (a.applyUnloaded r).state := by
  unfold Application.applyUnloaded
  split
  · exact h
  · next object hobject =>
    have hstep : ∀ (spaces : AddressSpaces) (thread : ThreadRecord),
        Sound (a.withSpaces spaces) →
          Sound (a.withSpaces (spaces.unload thread.name object r.time).state) :=
      fun _ thread hspaces => hspaces.unload thread.name object r.time
    exact Outcome.forEach_induction hstep h r.threads

theorem Sound.applySymbolTable (h : Sound a) (r : SymbolTableRecord) :
    Sound (a.applySymbolTable r).state := by
  unfold Application.applySymbolTable
  split
  · exact h
  · next contents _ =>
    have hlength := addObject_length a.symbols contents
    have hhandle := addObject_handle a.symbols contents
    have hbelow : (a.symbols.addObject contents).2.handle.table <
        (a.symbols.addObject contents).1.tables.length := by
      rw [hhandle, hlength]
      exact Nat.lt_succ_self _
    have hmade : AddressSpaces.Made
        (a.symbols.addObject contents).1.tables.length a.spaces := by
      apply h.made.mono
      rw [hlength]
      exact Nat.le_succ _
    simp only [Outcome.done]
    split
    · exact ⟨h.indexed.congr rfl rfl rfl rfl, hmade.learn hbelow⟩
    · next former hformer =>
      -- The new object is of the last table, which nothing refers to.
      have hfresh : ∀ other : LinkedObject,
          other.handle.table < a.symbols.tables.length →
            other.handle ≠ (a.symbols.addObject contents).2.handle := by
        intro other hother heq
        rw [heq, hhandle] at hother
        exact Nat.lt_irrefl _ hother
      have hne := hfresh former (h.made.of_object? hformer)
      exact ⟨h.indexed.exchange hne fun m hm =>
          hfresh m.object (h.made.mapped m hm),
        hmade.exchange h.indexed hne hbelow⟩

end Sound

/-! ## Agreement -/

/-- The applications that loads, unloads and records lead to from one without
mappings, whether they are refused or not. In between, other symbols may come
into the store, but tables stay. -/
inductive Reached : Application → Prop where
  | start (symbols : SymbolStore) : Reached ⟨symbols, ∅⟩
  | symbols {a : Application} (h : Reached a) (symbols : SymbolStore)
      (hle : a.symbols.tables.length ≤ symbols.tables.length) :
      Reached ⟨symbols, a.spaces⟩
  | load {a : Application} (h : Reached a) (thread : ThreadName)
      (object : LinkedObject) (range : AddressRange) (time : Time)
      (executable : Bool)
      (hobject : object.handle.table < a.symbols.tables.length) :
      Reached
        (a.withSpaces (a.spaces.load thread object range time executable))
  | unload {a : Application} (h : Reached a) (thread : ThreadName)
      (object : LinkedObject) (time : Time) :
      Reached (a.withSpaces (a.spaces.unload thread object time).state)
  | group {a : Application} (h : Reached a) (r : ObjectGroupRecord) :
      Reached (a.applyGroup r)
  | loaded {a : Application} (h : Reached a) (r : LoadedRecord) :
      Reached (a.applyLoaded r)
  | unloaded {a : Application} (h : Reached a) (r : UnloadedRecord) :
      Reached (a.applyUnloaded r).state
  | symbolTable {a : Application} (h : Reached a) (r : SymbolTableRecord) :
      Reached (a.applySymbolTable r).state

theorem sound_of_reached {a : Application} (h : Reached a) : Sound a := by
  induction h with
  | start symbols =>
      exact sound_empty symbols
  | symbols _ symbols hle ih =>
      exact ih.withSymbols hle
  | load _ _ _ _ _ _ hobject ih =>
      exact ih.insert hobject
  | unload _ thread object time ih =>
      exact ih.unload thread object time
  | group _ r ih =>
      exact ih.applyGroup r
  | loaded _ r ih =>
      exact ih.applyLoaded r
  | unloaded _ r ih =>
      exact ih.applyUnloaded r
  | symbolTable _ r ih =>
      exact ih.applySymbolTable r

end Application

namespace AddressSpaces

/-- Every query finds what a search through all mappings finds, in the order of
the mappings and each of them once. -/
structure Agreement (s : AddressSpaces) : Prop where
  thread : ∀ t, s.threadMappings t = s.mappings.filter fun m => m.thread = t
  object : ∀ handle, s.objectMappings handle =
    s.mappings.filter fun m => m.object.handle = handle
  overlapping : ∀ t range interval, s.mappingsIn t range interval =
    s.mappings.filter fun m => m.thread = t ∧
      m.range.Overlaps range ∧ m.interval.Overlaps interval
  /-- What the lookup before unloading lists. -/
  listed : ∀ t handle, s.listed t handle =
    s.mappings.findIdxs fun m => m.thread = t ∧ m.object.handle = handle
  threads : ∀ t, t ∈ s.threads ↔ ∃ m ∈ s.mappings, m.thread = t
  ascending : s.threads.Pairwise fun t u => compare t u = .lt

theorem Lists.mappingsOf_eq {κ : Type} [Ord κ] [DecidableEq κ]
    {s : AddressSpaces} {index : OrderedMap κ (List Nat)} {key : Mapping → κ}
    (h : Lists index key s.mappings) (k : κ) :
    s.mappingsOf ((index.get? k).getD []) =
      s.mappings.filter fun m => key m = k := by
  rw [h k]
  exact filterMap_findIdxs _ s.mappings

theorem Indexed.agreement {s : AddressSpaces} (h : Indexed s) :
    Agreement s := by
  have hthread := h.byThread.mappingsOf_eq
  constructor
  · exact hthread
  · exact h.byObject.mappingsOf_eq
  · intro t range interval
    unfold mappingsIn
    rw [threadMappings, hthread, List.filter_filter]
    apply List.filter_congr
    intro m _
    rw [Bool.eq_iff_iff]
    simp only [Bool.and_eq_true, decide_eq_true_eq, Interval.intersects_iff,
      and_comm]
  · intro t handle
    unfold AddressSpaces.listed
    rw [h.byThreadObject]
    apply findIdxs_congr
    intro m _
    simp only [threadObject, Prod.mk.injEq]
  · intro t
    constructor
    · exact h.mapped t
    · intro hmapped
      rcases hmapped with ⟨m, hm, hself⟩
      have hne : (s.byThread.get? t).getD [] ≠ [] := by
        rw [h.byThread t, Ne, List.findIdxs_eq_nil_iff]
        intro hnone
        exact of_decide_eq_false (hnone m hm) hself
      cases hget : s.byThread.get? t with
      | none =>
          rw [hget] at hne
          exact absurd rfl hne
      | some numbers =>
          exact OrderedMap.mem_keys_iff.mpr ⟨numbers, hget⟩
  · exact List.pairwise_map.mpr s.byThread.ascending

/-- The indexes agree with the mappings in every application that is reached. -/
theorem indexes_agree {a : Application} (h : Application.Reached a) :
    Agreement a.spaces :=
  (Application.sound_of_reached h).indexed.agreement

def partlyUnloaded : Outcome Application :=
  let thread (pid : Int64) : ThreadRecord := ⟨0, "a", pid, false, 0, -1⟩
  let file : FileName := ⟨"/bin/a", 0⟩
  let load (threads : List ThreadRecord) (start : Address) : LoadedRecord :=
    ⟨threads, 10, ⟨start, start + 16⟩, file, true⟩
  let a := (Application.applyLoaded ∅ (load [thread 1, thread 2] 0)).applyLoaded
    (load [thread 1] 64)
  let b := (a.applySymbolTable ⟨file, [⟨"main", []⟩], [], []⟩).state
  b.applyUnloaded ⟨[thread 1, thread 3, thread 2], 20, file⟩

theorem indexes_agree_partly_unloaded :
    partlyUnloaded.refusal ≠ none ∧
      partlyUnloaded.state.spaces.mappings.map Mapping.isLoaded =
        [false, true, false] ∧
      Agreement partlyUnloaded.state.spaces := by
  refine ⟨by decide +kernel, by decide +kernel, ?_⟩
  exact indexes_agree
    (.unloaded (.symbolTable (.loaded (.loaded (.start ∅) _) _) _) _)

end AddressSpaces
end CudaProfile
