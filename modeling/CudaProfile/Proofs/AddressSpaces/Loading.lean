import CudaProfile.Message
import CudaProfile.Proofs.AddressSpaces.Agreement
/-!
# What messages load

Every load that a message tells of becomes a mapping behind all others. What
unloads and symbol tables do later changes the end of a mapping or its linked
object, but not its thread, its place or its start. So the mappings of an
application are the loads it heard of, in their order.
-/

namespace CudaProfile

/-- A load into a thread: where, since when, and whether as code. -/
structure Load where
  thread : ThreadName
  range : AddressRange
  start : Time
  executable : Bool
deriving DecidableEq

namespace Load

def ofMapping (m : Mapping) : Load :=
  ⟨m.thread, m.range, m.interval.lo, m.executable⟩

def ofObject (thread : ThreadName) (r : MappedObjectRecord) : Load :=
  ⟨thread, .ofHalfOpen r.range, (Interval.ofHalfOpen r.time).lo, r.executable⟩

def ofGroup (r : ObjectGroupRecord) : List Load :=
  r.objects.map (ofObject r.thread.name)

def ofMessage : Message → List Load
  | .initialLinkedObjects groups => groups.flatMap ofGroup
  | .linkedObjectGroup r => ofGroup r
  | .loadedLinkedObject r =>
      r.threads.map fun thread =>
        ⟨thread.name, .ofHalfOpen r.range, r.time, r.executable⟩
  | _ => []

end Load

namespace Application

/-- What a message does to an application, whether it is refused or not. -/
def hear (a : Application) : Message → Application
  | .initialLinkedObjects groups => groups.foldl applyGroup a
  | .linkedObjectGroup r => a.applyGroup r
  | .loadedLinkedObject r => a.applyLoaded r
  | .unloadedLinkedObject r => (a.applyUnloaded r).state
  | .symbolTable r => (a.applySymbolTable r).state
  | _ => a

def loads (a : Application) : List Load :=
  a.spaces.mappings.map Load.ofMapping

section Hearing

variable {a : Application}

theorem Sound.applyGroups (h : Sound a) (groups : List ObjectGroupRecord) :
    Sound (groups.foldl Application.applyGroup a) := by
  induction groups generalizing a with
  | nil =>
      exact h
  | cons group rest ih =>
      exact ih (h.applyGroup group)

theorem Sound.hear (h : Sound a) (message : Message) :
    Sound (a.hear message) := by
  cases message with
  | initialLinkedObjects groups =>
      exact h.applyGroups groups
  | linkedObjectGroup r =>
      exact h.applyGroup r
  | loadedLinkedObject r =>
      exact h.applyLoaded r
  | unloadedLinkedObject r =>
      exact h.applyUnloaded r
  | symbolTable r =>
      exact h.applySymbolTable r
  | _ =>
      exact h

theorem loads_objectOf (a : Application) (file : FileName) :
    (a.objectOf file).1.loads = a.loads := by
  unfold objectOf
  split
  · rfl
  · rfl

theorem loads_insert (a : Application) (m : Mapping) :
    (a.withSpaces (a.spaces.insert m)).loads = a.loads ++ [.ofMapping m] :=
  List.map_append

theorem loads_applyGroup (a : Application) (r : ObjectGroupRecord) :
    (a.applyGroup r).loads = a.loads ++ Load.ofGroup r := by
  unfold applyGroup Load.ofGroup
  induction r.objects generalizing a with
  | nil =>
      exact (List.append_nil _).symm
  | cons object rest ih =>
      rw [List.foldl_cons, ih, Application.map, loads_insert, loads_objectOf,
        List.append_assoc]
      rfl

theorem loads_applyGroups (a : Application) (groups : List ObjectGroupRecord) :
    (groups.foldl applyGroup a).loads =
      a.loads ++ groups.flatMap Load.ofGroup := by
  induction groups generalizing a with
  | nil =>
      exact (List.append_nil _).symm
  | cons group rest ih =>
      rw [List.foldl_cons, ih, loads_applyGroup, List.append_assoc]
      rfl

theorem loads_applyLoaded (a : Application) (r : LoadedRecord) :
    (a.applyLoaded r).loads =
      a.loads ++ Load.ofMessage (.loadedLinkedObject r) := by
  unfold applyLoaded Load.ofMessage
  simp only
  rw [← loads_objectOf a r.object]
  generalize a.objectOf r.object = found
  rcases found with ⟨b, object⟩
  simp only
  induction r.threads generalizing b with
  | nil =>
      exact (List.append_nil _).symm
  | cons thread rest ih =>
      refine (ih (b.withSpaces (b.spaces.load thread.name object
        (.ofHalfOpen r.range) r.time r.executable))).trans ?_
      rw [AddressSpaces.load, loads_insert, List.append_assoc]
      rfl

theorem loads_applyUnloaded (a : Application) (r : UnloadedRecord) :
    (a.applyUnloaded r).state.loads = a.loads := by
  unfold applyUnloaded
  split
  · rfl
  · next object _ =>
    have hstep : ∀ (spaces : AddressSpaces) (thread : ThreadRecord),
        spaces.mappings.map Load.ofMapping = a.loads →
          (spaces.unload thread.name object r.time).state.mappings.map
            Load.ofMapping = a.loads :=
      fun spaces thread hspaces =>
        (spaces.map_unload thread.name object r.time fun _ => rfl).trans hspaces
    exact Outcome.forEach_induction hstep rfl r.threads

theorem Sound.loads_applySymbolTable (h : Sound a) (r : SymbolTableRecord) :
    (a.applySymbolTable r).state.loads = a.loads := by
  unfold Application.applySymbolTable
  split
  · rfl
  · next contents _ =>
    simp only [Outcome.done]
    split
    · rfl
    · next former hformer =>
      have hne : former.handle ≠ (a.symbols.addObject contents).2.handle := by
        intro heq
        have hbelow := h.made.of_object? hformer
        rw [heq, addObject_handle] at hbelow
        exact Nat.lt_irrefl _ hbelow
      unfold loads
      simp only
      rw [h.indexed.exchange_mappings hne, List.map_map]
      apply List.map_congr_left
      intro m _
      rw [Function.comp_apply, AddressSpaces.exchanged]
      split
      · rfl
      · rfl

theorem Sound.loads_hear (h : Sound a) (message : Message) :
    (a.hear message).loads = a.loads ++ Load.ofMessage message := by
  cases message with
  | initialLinkedObjects groups =>
      exact loads_applyGroups a groups
  | linkedObjectGroup r =>
      exact loads_applyGroup a r
  | loadedLinkedObject r =>
      exact loads_applyLoaded a r
  | unloadedLinkedObject r =>
      exact (loads_applyUnloaded a r).trans (List.append_nil _).symm
  | symbolTable r =>
      exact (h.loads_applySymbolTable r).trans (List.append_nil _).symm
  | _ =>
      exact (List.append_nil _).symm

/-! ## Messages one after the other -/

def ofMessages (messages : List Message) : Application :=
  messages.foldl hear ∅

theorem ofMessages_append (before : List Message) (message : Message) :
    ofMessages (before ++ [message]) = (ofMessages before).hear message :=
  List.foldl_append

theorem sound_ofMessages (messages : List Message) :
    Sound (ofMessages messages) := by
  induction messages using List.reverseRecOn with
  | nil =>
      exact sound_empty ∅
  | append_singleton before message ih =>
      rw [ofMessages_append]
      exact ih.hear message

theorem loads_ofMessages (messages : List Message) :
    (ofMessages messages).loads = messages.flatMap Load.ofMessage := by
  induction messages using List.reverseRecOn with
  | nil =>
      rfl
  | append_singleton before message ih =>
      rw [ofMessages_append, (sound_ofMessages before).loads_hear, ih,
        List.flatMap_append, List.flatMap_singleton]

end Hearing

end Application

theorem Load.name_of_mem_ofMessage {message : Message} {load : Load}
    (h : load ∈ ofMessage message) :
    ∃ r : ThreadRecord, r.name = load.thread := by
  have hgroup : ∀ r : ObjectGroupRecord, load ∈ ofGroup r →
      r.thread.name = load.thread := by
    intro r hmem
    rcases List.mem_map.mp hmem with ⟨object, _, rfl⟩
    rfl
  cases message with
  | initialLinkedObjects groups =>
      rcases List.mem_flatMap.mp h with ⟨r, _, hmem⟩
      exact ⟨r.thread, hgroup r hmem⟩
  | linkedObjectGroup r =>
      exact ⟨r.thread, hgroup r h⟩
  | loadedLinkedObject r =>
      rcases List.mem_map.mp h with ⟨thread, _, rfl⟩
      exact ⟨thread, rfl⟩
  | _ =>
      cases h

theorem Application.name_of_mem_ofMessages {messages : List Message}
    {m : Mapping} (h : m ∈ (ofMessages messages).spaces.mappings) :
    ∃ r : ThreadRecord, r.name = m.thread := by
  have hload : Load.ofMapping m ∈ (ofMessages messages).loads :=
    List.mem_map_of_mem h
  rw [loads_ofMessages] at hload
  rcases List.mem_flatMap.mp hload with ⟨message, _, hmessage⟩
  exact Load.name_of_mem_ofMessage hmessage

end CudaProfile
