import CudaProfile.Proofs.AddressSpaces.Unloading
import CudaProfile.Proofs.Lists
/-!
# Address spaces from their groups

The groups of some address spaces make others with the same mappings, thread by
thread and bound by bound. Linked objects are looked up again on the way, in the
order of the threads and not of the loads, and a file without a checksum finds
the first object of its path. So the files of mappings that correspond agree,
but their checksums may differ.
-/

namespace CudaProfile

theorem Interval.equivalent_self (i : Interval) : i.equivalent i = true := by
  unfold equivalent
  cases i.isEmpty with
  | true =>
      rfl
  | false =>
      exact decide_eq_true rfl

theorem FileName.agrees_comm (a b : FileName) : a.agrees b = b.agrees a := by
  unfold agrees Path.same
  rw [Bool.eq_iff_iff]
  simp only [Bool.and_eq_true, Bool.or_eq_true, decide_eq_true_eq]
  grind

/-! ## Mappings made again -/

/-- A mapping is made again as another one: of its thread, with its bounds, and
of a file that agrees with its file. -/
structure Mapping.MadeAgain (m n : Mapping) : Prop where
  thread : n.thread = m.thread
  range : n.range = m.range
  interval : n.interval = m.interval
  executable : n.executable = m.executable
  file : n.object.file.agrees m.object.file = true

theorem Mapping.MadeAgain.placedAlike {m n : Mapping} (h : m.MadeAgain n) :
    n.placedAlike m = true ∧ m.placedAlike n = true := by
  have hrange := Interval.equivalent_self m.range
  have hinterval := Interval.equivalent_self m.interval
  unfold Mapping.placedAlike
  rw [h.range, h.interval, hrange, hinterval,
    FileName.agrees_comm m.object.file, h.file]
  exact ⟨rfl, rfl⟩

namespace AddressSpaces

section Agreement

variable {s other : AddressSpaces}

theorem Agreement.mem_threadMappings (h : Agreement s) {m : Mapping} :
    m ∈ s.threadMappings m.thread ↔ m ∈ s.mappings := by
  rw [h.thread, List.mem_filter]
  exact and_iff_left (decide_eq_true rfl)

theorem Agreement.thread_of_mem (h : Agreement s) {t : ThreadName}
    {m : Mapping} (hm : m ∈ s.threadMappings t) : m.thread = t := by
  rw [h.thread] at hm
  exact of_decide_eq_true (List.mem_filter.mp hm).2

theorem Agreement.mem_threads_iff (h : Agreement s) (t : ThreadName) :
    t ∈ s.threads ↔ s.threadMappings t ≠ [] := by
  rw [h.threads, h.thread, Ne, List.filter_eq_nil_iff]
  simp

theorem Agreement.filter_threads (h : Agreement s) (t : ThreadName) :
    ((s.threads.flatMap s.threadMappings).filter fun m => m.thread = t) =
      s.threadMappings t := by
  have hnodup : s.threads.Nodup := s.byThread.nodup_keys
  rw [filter_flatMap_key Mapping.thread hnodup
    (fun u _ m => h.thread_of_mem) t]
  split
  · rfl
  · next hnone =>
    exact (not_ne_iff.mp (mt (h.mem_threads_iff t).mpr hnone)).symm

theorem Agreement.coveredBy (h : Agreement s)
    (halike : ∀ t, List.Forall₂ (fun n m => n.placedAlike m = true)
      (other.threadMappings t) (s.threadMappings t)) :
    s.coveredBy other = true := by
  apply List.all_eq_true.mpr
  intro m hm
  exact List.any_eq_true.mpr
    (exists_of_forall₂ (halike m.thread) (h.mem_threadMappings.mpr hm))

end Agreement

end AddressSpaces

namespace Application

open AddressSpaces

/-! ## Groups applied one after the other -/

section Groups

/-- The second application has the mappings of the first one and, behind them,
some mappings made again. -/
def Extends (a b : Application) (ms : List Mapping) : Prop :=
  ∃ added, List.Forall₂ Mapping.MadeAgain ms added ∧
    b.spaces.mappings = a.spaces.mappings ++ added

theorem extends_nil (a : Application) : Extends a a [] :=
  ⟨[], .nil, (List.append_nil _).symm⟩

theorem Extends.append {a b c : Application} {ms ns : List Mapping}
    (h : Extends a b ms) (h' : Extends b c ns) : Extends a c (ms ++ ns) := by
  rcases h with ⟨added, hadded, hb⟩
  rcases h' with ⟨more, hmore, hc⟩
  refine ⟨added ++ more, List.rel_append hadded hmore, ?_⟩
  rw [hc, hb, List.append_assoc]

theorem extends_map (a : Application) (m : Mapping) :
    Extends a (map m.thread a m.toRecord) [m] := by
  refine ⟨[⟨m.thread, (a.objectOf m.object.file).2,
    .ofHalfOpen m.range.toHalfOpen, .ofHalfOpen m.interval.toHalfOpen,
    m.executable⟩], .cons ?_ .nil, ?_⟩
  · constructor
    · rfl
    · exact Interval.ofHalfOpen_toHalfOpen m.range
    · exact Interval.ofHalfOpen_toHalfOpen m.interval
    · rfl
    · exact agrees_of_object? (object?_objectOf a m.object.file)
  · exact congrArg (· ++ _) (mappings_objectOf a m.object.file)

theorem extends_applyGroup (a : Application) {thread : ThreadRecord}
    {ms : List Mapping} (h : ∀ m ∈ ms, m.thread = thread.name) :
    Extends a (a.applyGroup ⟨thread, ms.map Mapping.toRecord⟩) ms := by
  unfold applyGroup
  induction ms generalizing a with
  | nil =>
      exact extends_nil a
  | cons m rest ih =>
      rcases List.forall_mem_cons.mp h with ⟨hthread, hrest⟩
      have hfirst := extends_map a m
      rw [hthread] at hfirst
      exact hfirst.append (ih _ hrest)

theorem extends_applyGroups (a : Application) (s : AddressSpaces)
    {threads : List ThreadName}
    (h : ∀ t ∈ threads, ∀ m ∈ s.threadMappings t,
      m.thread = (ThreadRecord.ofName t).name) :
    Extends a ((threads.map s.groupRecord).foldl applyGroup a)
      (threads.flatMap s.threadMappings) := by
  induction threads generalizing a with
  | nil =>
      exact extends_nil a
  | cons t rest ih =>
      rcases List.forall_mem_cons.mp h with ⟨hfirst, hrest⟩
      exact (extends_applyGroup a hfirst).append (ih _ hrest)

end Groups

/-! ## Spaces made again -/

section Rebuilding

def rebuilt (symbols : SymbolStore) (s : AddressSpaces) : Application :=
  s.groupRecords.foldl applyGroup ⟨symbols, ∅⟩

theorem sound_rebuilt (symbols : SymbolStore) (s : AddressSpaces) :
    Sound (rebuilt symbols s) :=
  (sound_empty symbols).applyGroups s.groupRecords

theorem madeAgain_rebuilt {s : AddressSpaces} (h : Agreement s)
    (hnames : ∀ m ∈ s.mappings, ∃ r : ThreadRecord, r.name = m.thread)
    (symbols : SymbolStore) (t : ThreadName) :
    List.Forall₂ Mapping.MadeAgain (s.threadMappings t)
      ((rebuilt symbols s).spaces.threadMappings t) := by
  -- A rank that no record has would be lost on the way.
  have hrecord : ∀ u ∈ s.threads, ∀ m ∈ s.threadMappings u,
      m.thread = (ThreadRecord.ofName u).name := by
    intro u _ m hm
    have hthread := h.thread_of_mem hm
    subst hthread
    rcases hnames m (h.mem_threadMappings.mp hm) with ⟨r, hr⟩
    rw [← hr]
    exact r.name_ofName.symm
  rcases extends_applyGroups ⟨symbols, ∅⟩ s hrecord with
    ⟨added, hadded, hmappings⟩
  have hmappings : (rebuilt symbols s).spaces.mappings = added := hmappings
  rw [(sound_rebuilt symbols s).indexed.agreement.thread, hmappings,
    ← h.filter_threads]
  refine List.rel_filter ?_ hadded
  intro m n hmade
  simp only [hmade.thread]

/-- Address spaces that records lead to are made again by their groups: with the
same threads, and for every thread the same mappings in the same order. -/
theorem groups_rebuild_spaces (symbols : SymbolStore)
    (messages : List Message) :
    let s := (ofMessages messages).spaces
    let s' := (rebuilt symbols s).spaces
    s'.equivalent s = true ∧ s.equivalent s' = true ∧ s'.threads = s.threads ∧
      ∀ t, List.Forall₂ Mapping.MadeAgain (s.threadMappings t)
        (s'.threadMappings t) := by
  intro s s'
  have hagrees : Agreement s := (sound_ofMessages messages).indexed.agreement
  have hagrees' : Agreement s' := (sound_rebuilt symbols s).indexed.agreement
  have hmade := madeAgain_rebuilt hagrees
    (fun m hm => name_of_mem_ofMessages hm) symbols
  have hcovered : s.coveredBy s' = true :=
    hagrees.coveredBy fun t => ((hmade t).imp fun m n h => h.placedAlike.1).flip
  have hcovers : s'.coveredBy s = true :=
    hagrees'.coveredBy fun t => (hmade t).imp fun m n h => h.placedAlike.2
  refine ⟨Bool.and_eq_true_iff.mpr ⟨hcovers, hcovered⟩,
    Bool.and_eq_true_iff.mpr ⟨hcovered, hcovers⟩, ?_, hmade⟩
  apply OrderedMap.keys_eq_of_mem_iff
  intro t
  change t ∈ s'.threads ↔ t ∈ s.threads
  rw [hagrees.mem_threads_iff, hagrees'.mem_threads_iff, ← List.length_pos_iff,
    ← List.length_pos_iff, (hmade t).length_eq]

/-- The mapping of the second thread has no checksum after the symbols came. Its
group comes first, and with it the object that the other thread finds. -/
example :
    let s := (ofMessages [.loadedLinkedObject (loadInto 2 1),
      .loadedLinkedObject (loadInto 1 2), symbolsOf 0]).spaces
    let checksums (s : AddressSpaces) :=
      s.threads.map fun t =>
        (s.threadMappings t).map fun m => m.object.file.checksum
    checksums s = [[2], [0]] ∧ checksums (rebuilt ∅ s).spaces = [[2], [2]] := by
  decide +kernel

end Rebuilding

end Application
end CudaProfile
