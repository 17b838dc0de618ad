import CudaProfile.Proofs.AddressSpaces.Closing
import CudaProfile.Proofs.Symbols.Reading
/-!
# What a symbol table exchanges

A symbol table whose bitmaps can all be read makes a new linked object with its
symbols, and its file leads to this object from then on. If the file led to
another one before, the new object takes its place in every mapping; nothing
else about the mappings changes, and what could be unloaded by the former object
can be unloaded by the new one.
-/

namespace CudaProfile

namespace AddressSpaces

/-! ## Unloading after an exchange -/

section Exchange

variable {s : AddressSpaces} {former object : LinkedObject}

theorem exchanged_isLoaded (former object : LinkedObject) (m : Mapping) :
    (exchanged former object m).isLoaded = m.isLoaded := by
  unfold exchanged
  split
  · rfl
  · rfl

theorem exchanged_unloadedAt (former object : LinkedObject) (m : Mapping)
    (time : Time) :
    (exchanged former object m).unloadedAt time =
      exchanged former object (m.unloadedAt time) := by
  unfold exchanged
  split
  · next hsame =>
    exact (if_pos hsame).symm
  · next hother =>
    exact (if_neg hother).symm

theorem Indexed.openMappings_exchange (h : Indexed s)
    (hne : former.handle ≠ object.handle)
    (hfresh : ∀ m ∈ s.mappings, m.object.handle ≠ object.handle)
    (thread : ThreadName) :
    (s.exchange former object).openMappings thread object =
      s.openMappings thread former := by
  have hlisted := h.exchange_listed hne hfresh thread object.handle
  rw [if_neg hne.symm, if_pos rfl] at hlisted
  unfold openMappings
  change ((s.exchange former object).listed thread object.handle).filter _ =
    (s.listed thread former.handle).filter _
  rw [hlisted, h.exchange_mappings hne]
  apply List.filter_congr
  intro number _
  rw [List.getElem?_map, Option.map_map]
  congr 2
  funext m
  exact exchanged_isLoaded former object m

theorem openIn_exchanged_iff {m : Mapping}
    (hfresh : m.object.handle ≠ object.handle) (thread : ThreadName) :
    (exchanged former object m).OpenIn thread object.handle ↔
      m.OpenIn thread former.handle := by
  rw [Mapping.openIn_iff, Mapping.openIn_iff, exchanged_thread,
    exchanged_handle, exchanged_isLoaded]
  by_cases hformer : m.object.handle = former.handle
  · simp [hformer]
  · simp [hformer, hfresh]

/-- Unloading the new object ends the mappings that unloading the former one
would have ended. -/
theorem Indexed.unload_exchange (h : Indexed s)
    (hne : former.handle ≠ object.handle)
    (hfresh : ∀ m ∈ s.mappings, m.object.handle ≠ object.handle)
    (thread : ThreadName) (time : Time) :
    let unloaded := (s.exchange former object).unload thread object time
    (unloaded.refusal = none ↔ (s.unload thread former time).refusal = none) ∧
      unloaded.state.mappings =
        (s.unload thread former time).state.mappings.map
          (exchanged former object) := by
  have hindexed := h.exchange hne hfresh
  have hopen : (s.exchange former object).HasOpen thread object.handle ↔
      s.HasOpen thread former.handle := by
    rw [← not_iff_not, ← h.openMappings_eq_nil_iff,
      ← hindexed.openMappings_eq_nil_iff, h.openMappings_exchange hne hfresh]
  simp only [h.unload_eq, hindexed.unload_eq]
  by_cases hformer : s.HasOpen thread former.handle
  · rw [if_pos hformer, if_pos (hopen.mpr hformer)]
    refine ⟨Iff.rfl, ?_⟩
    simp only [Outcome.done, close, h.exchange_mappings hne, List.map_map]
    apply List.map_congr_left
    intro m hm
    rw [Function.comp_apply, Function.comp_apply,
      if_congr (openIn_exchanged_iff (hfresh m hm) thread) rfl rfl]
    split
    · exact exchanged_unloadedAt former object m time
    · rfl
  · rw [if_neg hformer, if_neg (mt hopen.mp hformer)]
    exact ⟨iff_of_false (Option.some_ne_none _) (Option.some_ne_none _),
      h.exchange_mappings hne⟩

end Exchange

end AddressSpaces

namespace Application

open AddressSpaces

/-! ## Known objects in every application that is reached -/

section Reached

variable {a : Application}

theorem apart_of_reached (h : Reached a) :
    Apart a.symbols.tables.length a.spaces := by
  induction h with
  | start symbols =>
      exact apart_empty
  | symbols _ symbols hle ih =>
      exact ih.mono hle
  | load _ _ _ _ _ _ _ ih =>
      exact (grows_insert _ _).apart ih
  | unload _ thread object time ih =>
      exact (grows_unload _ thread object time).apart ih
  | group _ r ih =>
      exact (grows_applyGroup _ r).apart ih
  | loaded _ r ih =>
      exact (grows_applyLoaded _ r).apart ih
  | unloaded _ r ih =>
      exact (grows_applyUnloaded _ r).apart ih
  | symbolTable _ r ih =>
      exact apart_applySymbolTable ih r

theorem Sound.object_ne_added (h : Sound a) (contents : ObjectContents) :
    ∀ m ∈ a.spaces.mappings,
      m.object.handle ≠ (a.symbols.addObject contents).2.handle := by
  intro m hm heq
  have hbelow := h.made.mapped m hm
  rw [heq, addObject_handle] at hbelow
  exact Nat.lt_irrefl _ hbelow

end Reached

/-! ## Symbol tables -/

/-- What becomes of an application when a symbol table makes a new object: its
file leads to the object, which has its symbols, and the object takes the place
of the one that the file led to before. -/
structure Exchanges (r : SymbolTableRecord) (object : LinkedObject)
    (a b : Application) : Prop where
  found : b.spaces.object? r.object = some object
  contents : ∃ c, b.symbols.contents? object.handle = some c ∧ c.ReadFrom r
  /-- Every object that there was keeps its symbols. -/
  others : ∀ handle, handle.table < a.symbols.tables.length →
    b.symbols.contents? handle = a.symbols.contents? handle
  unused : ∀ m ∈ a.spaces.mappings, m.object.handle ≠ object.handle
  mappings : b.spaces.mappings = a.spaces.mappings.map fun m =>
    if some m.object.handle =
        (a.spaces.object? r.object).map LinkedObject.handle then
      { m with object := object }
    else m
  unloads : ∀ former, a.spaces.object? r.object = some former →
    ∀ thread,
      b.spaces.openMappings thread object =
          a.spaces.openMappings thread former ∧
        ∀ time,
          let after := b.spaces.unload thread object time
          let before := a.spaces.unload thread former time
          (after.refusal = none ↔ before.refusal = none) ∧
            after.state.mappings =
              before.state.mappings.map (exchanged former object)

section SymbolTable

variable {a : Application} {r : SymbolTableRecord} {c : ObjectContents}

theorem exchanges_of_unknown (h : Reached a) (hc : c.ReadFrom r)
    (hunknown : a.spaces.object? r.object = none) :
    Exchanges r (a.symbols.addObject c).2 a
      ⟨(a.symbols.addObject c).1,
        a.spaces.learn (a.symbols.addObject c).2⟩ := by
  have hfile : (a.symbols.addObject c).2.file = r.object := hc.file
  constructor
  · rw [← hfile] at hunknown ⊢
    exact object?_learn hunknown
  · exact ⟨c, a.symbols.contents?_addObject c, hc⟩
  · intro handle hbelow
    exact a.symbols.contents?_addObject_of_lt c hbelow
  · exact (sound_of_reached h).object_ne_added c
  · rw [hunknown]
    exact (List.map_id _).symm
  · intro former hformer
    rw [hunknown] at hformer
    cases hformer

theorem exchanges_of_known (h : Reached a) (hc : c.ReadFrom r)
    {former : LinkedObject} (hformer : a.spaces.object? r.object = some former) :
    Exchanges r (a.symbols.addObject c).2 a
      ⟨(a.symbols.addObject c).1,
        a.spaces.exchange former (a.symbols.addObject c).2⟩ := by
  have hsound := sound_of_reached h
  have hapart := apart_of_reached h
  have hfile : (a.symbols.addObject c).2.file = r.object := hc.file
  have hfresh := addObject_handle a.symbols c
  have hunused := hsound.object_ne_added c
  have hknown : former ∈ a.spaces.known
      (Path.components (a.symbols.addObject c).2.file.path) := by
    rw [hfile]
    exact List.mem_of_find?_eq_some hformer
  have hne := hapart.ne_of_fresh hfresh hknown
  constructor
  · have hagrees : former.file.agrees r.object =
        (a.symbols.addObject c).2.file.agrees r.object := by
      rw [hfile, FileName.agrees_self]
      exact agrees_of_object? hformer
    refine (hapart.object?_exchange hfresh hknown hagrees).trans ?_
    rw [hformer]
    exact congrArg some (if_pos rfl)
  · exact ⟨c, a.symbols.contents?_addObject c, hc⟩
  · intro handle hbelow
    exact a.symbols.contents?_addObject_of_lt c hbelow
  · exact hunused
  · refine (hsound.indexed.exchange_mappings hne).trans ?_
    rw [hformer]
    apply List.map_congr_left
    intro m _
    unfold exchanged
    rw [Option.map_some]
    exact if_congr (Option.some_inj).symm rfl rfl
  · intro other hother thread
    cases hformer.symm.trans hother
    exact ⟨hsound.indexed.openMappings_exchange hne hunused thread,
      hsound.indexed.unload_exchange hne hunused thread⟩

/-- A symbol table is refused exactly if one of its bitmaps has a fault, for the
first that has, and then nothing changes. Otherwise its file leads to a new
object with its symbols, in their order, which takes the place of the object
that the file led to before in all mappings of it and in no others. -/
theorem symbol_table_exchanges_object (h : Reached a)
    (r : SymbolTableRecord) :
    (a.applySymbolTable r).refusal =
      (firstFault? r.bitmaps).map Error.badBitmap ∧
    (firstFault? r.bitmaps = none ↔
      ∀ record ∈ r.bitmaps, ∃ b, Bitmap.ofRecord record = .ok b) ∧
    ((a.applySymbolTable r).refusal ≠ none →
      (a.applySymbolTable r).state = a) ∧
    ((a.applySymbolTable r).refusal = none →
      ∃ object, Exchanges r object a (a.applySymbolTable r).state) := by
  have hfailure := ObjectContents.failure?_ofRecord r
  unfold applySymbolTable
  cases hcontents : ObjectContents.ofRecord r with
  | error error =>
      rw [hcontents] at hfailure
      refine ⟨hfailure, firstFault?_eq_none_iff, fun _ => rfl, ?_⟩
      intro hnone
      cases hnone
  | ok c =>
      rw [hcontents] at hfailure
      have hc := ObjectContents.readFrom_ofRecord hcontents
      refine ⟨hfailure, firstFault?_eq_none_iff,
        fun hrefused => absurd rfl hrefused, ?_⟩
      intro _
      refine ⟨(a.symbols.addObject c).2, ?_⟩
      simp only [Outcome.done, hc.file]
      cases hformer : a.spaces.object? r.object with
      | none =>
          exact exchanges_of_unknown h hc hformer
      | some former =>
          exact exchanges_of_known h hc hformer

end SymbolTable

def twoOfOnePath : Application :=
  ((Application.applyLoaded ∅ (loadInto 1 1)).applyLoaded
    (loadInto 2 2)).applyLoaded (loadInto 1 1)

/-- A symbol table without a checksum takes the place of the first of the two
objects. -/
theorem symbol_table_exchanges_object_unknown_checksum :
    let r : SymbolTableRecord :=
      ⟨⟨"/bin/a", 0⟩, [⟨"main", [⟨⟨16, 24⟩, [0xFF]⟩]⟩], [], []⟩
    let b := (twoOfOnePath.applySymbolTable r).state
    Reached twoOfOnePath ∧ firstFault? r.bitmaps = none ∧
      ∃ object, Exchanges r object twoOfOnePath b ∧
        b.spaces.mappings.map (fun m => m.object.handle) =
          [object.handle, ⟨1, 0⟩, object.handle] := by
  intro r b
  have hreached : Reached twoOfOnePath :=
    .loaded (.loaded (.loaded (.start ∅) _) _) _
  rcases symbol_table_exchanges_object hreached r with
    ⟨hrefusal, hfault, _, hdone⟩
  have hnone : firstFault? r.bitmaps = none := by
    decide +kernel
  rw [hnone] at hrefusal
  rcases hdone hrefusal with ⟨object, hexchanges⟩
  refine ⟨hreached, hnone, object, hexchanges, ?_⟩
  have hfound : b.spaces.object? r.object =
      some ⟨⟨2, 0⟩, ⟨"/bin/a", 0⟩⟩ := by
    decide +kernel
  cases hexchanges.found.symm.trans hfound
  decide +kernel

end Application
end CudaProfile
