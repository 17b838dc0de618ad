import CudaProfile.Cuda.Staging
import CudaProfile.Proofs.Cuda.Payload
import CudaProfile.Proofs.Lists
/-!
# Staging loses nothing

Records are staged between flushes in the order in which they are pushed, and a
flush sends them all. The stack traces of requests lie behind each other in one
pool, each with a zero at its end. The invariant says that the pool is that of
what is staged, and that each staged request refers to a place behind which its
own frames stand; more traces at the end of the pool do not disturb it.
-/

namespace CudaProfile
namespace Cuda

theorem ofBlob_toBlob_of_length {d : Data} {header : BlobHeader}
    (h : (d.toBlob header).payload.length < 2 ^ 64) :
    Data.ofBlob (d.toBlob header) = .ok d := by
  rw [Wire.ofBlob_eq_decode]
  exact (Wire.decodesStrictly Format.strict_data).restored d h

theorem stackTrace?_of_append {before frames after : List Address}
    (hframes : 0 ∉ frames) (hsmall : before.length < 2 ^ 32)
    (records : List Record) :
    Data.stackTrace? ⟨records, before ++ (frames ++ 0 :: after)⟩
      (UInt32.ofNat before.length) = some frames := by
  have hstart : (UInt32.ofNat before.length).toNat = before.length :=
    UInt32.toNat_ofNat_of_lt' hsmall
  have htake : ((frames ++ 0 :: after).takeWhile fun pc => pc ≠ 0) =
      frames := by
    rw [List.takeWhile_append_of_pos]
    · simp
    · intro pc hpc
      apply decide_eq_true
      rintro rfl
      exact hframes hpc
  unfold Data.stackTrace?
  simp only [hstart]
  rw [if_pos (by simp), List.drop_left, htake]

namespace Staging

/-! ## Calls -/

inductive Item where
  | record (r : Record)
  | request (r : Request) (frames : List Address)
deriving DecidableEq

def Item.frames : Item → List Address
  | record _ => []
  | request _ frames => frames.filter fun pc => pc ≠ 0

def Item.trace : Item → List Address
  | record _ => []
  | request r frames => (request r frames).frames ++ [0]

inductive Call where
  | push (item : Item)
  | flush
deriving DecidableEq

def Call.item? : Call → Option Item
  | push item => some item
  | flush => none

def stage (s : Staging) : Item → Staging
  | .record r => s.push r
  | .request r frames => s.pushRequest r frames

def flushed : Staging → List Call → List (Option Blob)
  | _, [] => []
  | s, .push item :: rest => flushed (s.stage item) rest
  | s, .flush :: rest => s.flush.2 :: flushed s.flush.1 rest

def sent (s : Staging) (calls : List Call) : List Blob :=
  (s.flushed calls).filterMap id

/-- The items that are pushed before each flush, after the flush before. -/
def batchesFrom (staged : List Item) : List Call → List (List Item)
  | [] => []
  | .push item :: rest => batchesFrom (staged ++ [item]) rest
  | .flush :: rest => staged :: batchesFrom [] rest

def batches (calls : List Call) : List (List Item) :=
  batchesFrom [] calls

def pushed (calls : List Call) : List Item :=
  calls.filterMap Call.item?

theorem flatten_batchesFrom (staged : List Item) (calls : List Call) :
    (batchesFrom staged (calls ++ [Call.flush])).flatten =
      staged ++ pushed calls := by
  induction calls generalizing staged with
  | nil =>
      simp [batchesFrom, pushed]
  | cons call rest ih =>
      cases call with
      | push item =>
          rw [List.cons_append, batchesFrom, ih, List.append_assoc]
          rfl
      | flush =>
          rw [List.cons_append, batchesFrom, List.flatten_cons, ih]
          rfl

theorem flatten_batches (calls : List Call) :
    (batches (calls ++ [Call.flush])).flatten = pushed calls :=
  flatten_batchesFrom [] calls

/-! ## What is staged -/

/-- How an item is staged: with a pool in which its own frames stand at the
place to which it refers. -/
inductive StagedAs (pool : List Address) : Item → Record → Prop
  | record (r : Record) : StagedAs pool (.record r) r
  | request (r : Request) (frames before after : List Address)
      (hpool : pool = before ++ (Item.request r frames).frames ++ 0 :: after) :
      StagedAs pool (.request r frames)
        (.request { r with callSite := UInt32.ofNat before.length })

theorem StagedAs.append {pool : List Address} {item : Item} {r : Record}
    (h : StagedAs pool item r) (more : List Address) :
    StagedAs (pool ++ more) item r := by
  cases h with
  | record r =>
      exact .record r
  | request r frames before after hpool =>
      apply StagedAs.request r frames before (after ++ more)
      rw [hpool, List.append_assoc, List.cons_append]

structure Holds (staged : List Item) (s : Staging) : Prop where
  pool : s.stackTraces.toList = staged.flatMap Item.trace
  records : List.Forall₂ (StagedAs s.stackTraces.toList) staged
    s.records.toList

theorem holds_nil {s : Staging} (hrecords : s.records = #[])
    (htraces : s.stackTraces = #[]) : Holds [] s := by
  constructor
  · rw [htraces]
    rfl
  · rw [hrecords]
    exact .nil

theorem Holds.stage {staged : List Item} {s : Staging} (h : Holds staged s)
    (item : Item) : Holds (staged ++ [item]) (s.stage item) := by
  have hpool : (s.stage item).stackTraces.toList =
      s.stackTraces.toList ++ item.trace := by
    cases item with
    | record r =>
        exact (List.append_nil _).symm
    | request r frames =>
        exact Array.toList_appendList
  have hrecord : ∃ r, (s.stage item).records.toList =
      s.records.toList ++ [r] ∧
        StagedAs (s.stackTraces.toList ++ item.trace) item r := by
    cases item with
    | record r =>
        exact ⟨r, Array.toList_push, .record r⟩
    | request r frames =>
        refine ⟨_, Array.toList_push, ?_⟩
        rw [← Array.length_toList]
        apply StagedAs.request r frames s.stackTraces.toList []
        exact (List.append_assoc _ _ _).symm
  rcases hrecord with ⟨r, hrecords, hstaged⟩
  constructor
  · rw [hpool, h.pool, List.flatMap_append, List.flatMap_singleton]
  · rw [hpool, hrecords]
    apply List.rel_append
    · exact h.records.imp fun _ _ hold => hold.append _
    · exact .cons hstaged .nil

/-! ## What arrives -/

/-- How an item arrives: in its place, as it was pushed, but for the place of
its frames in the pool it arrives with. -/
inductive ArrivesAs : Item → Record × Data → Prop
  | record (r : Record) (d : Data) : ArrivesAs (.record r) (r, d)
  | request (r : Request) (frames : List Address) (callSite : UInt32) (d : Data)
      (htrace : d.stackTrace? callSite =
        some (frames.filter fun pc => pc ≠ 0)) :
      ArrivesAs (.request r frames)
        (.request { r with callSite := callSite }, d)

def located (d : Data) : List (Record × Data) :=
  d.records.map fun r => (r, d)

theorem StagedAs.arrives {d : Data} {item : Item} {r : Record}
    (h : StagedAs d.stackTraces item r)
    (hsmall : d.stackTraces.length < 2 ^ 32) : ArrivesAs item (r, d) := by
  rcases d with ⟨records, pool⟩
  cases h with
  | record r =>
      exact .record r _
  | request r frames before after hpool =>
      apply ArrivesAs.request
      have hfirst : before.length < 2 ^ 32 := by
        apply Nat.lt_of_le_of_lt _ hsmall
        rw [hpool, List.length_append, List.length_append]
        omega
      have hzero : (0 : Address) ∉ (Item.request r frames).frames := by
        simp [Item.frames]
      change pool = _ at hpool
      rw [hpool, List.append_assoc]
      exact stackTrace?_of_append hzero hfirst records

/-! ## Flushes -/

theorem eq_toBlob_of_flush {s : Staging} {blob : Blob}
    (h : s.flush.2 = some blob) :
    blob = s.data.toBlob (headerFor s.header s.data.records) := by
  unfold Staging.flush at h
  split at h
  · cases h
  · cases h
    rfl

section Flushing

variable {staged : List Item} {s : Staging}

theorem Holds.flush_eq_none_iff (h : Holds staged s) :
    s.flush.2 = none ↔ staged = [] := by
  have hempty : s.isEmpty = true ↔ staged = [] := by
    rw [← List.length_eq_zero_iff, h.records.length_eq, Array.length_toList]
    simp [isEmpty]
  rw [← hempty]
  simp [Staging.flush]

theorem Holds.arrives (h : Holds staged s)
    (hwords : (staged.flatMap Item.trace).length < 2 ^ 32) :
    List.Forall₂ ArrivesAs staged (located s.data) := by
  have hsmall : s.data.stackTraces.length < 2 ^ 32 := by
    change s.stackTraces.toList.length < _
    rw [h.pool]
    exact hwords
  unfold located
  rw [List.forall₂_map_right_iff]
  exact h.records.imp fun _ _ hstaged =>
    StagedAs.arrives (d := s.data) hstaged hsmall

/-- How the results of flushes tell of the batches before them. -/
structure Delivers (batches : List (List Item)) (results : List (Option Blob)) :
    Prop where
  arrive : ∃ ds, (results.filterMap id).mapM Data.ofBlob = .ok ds ∧
    List.Forall₂ ArrivesAs batches.flatten (ds.flatMap located)
  none_iff : List.Forall₂ (fun batch result => result = none ↔ batch = [])
    batches results

theorem Delivers.cons {batches : List (List Item)}
    {results : List (Option Blob)} (hrest : Delivers batches results) (h : Holds staged s)
    (hwords : (staged.flatMap Item.trace).length < 2 ^ 32)
    (hmemory : ∀ blob, s.flush.2 = some blob → blob.payload.length < 2 ^ 64) :
    Delivers (staged :: batches) (s.flush.2 :: results) := by
  rcases hrest.arrive with ⟨ds, hds, harrive⟩
  refine ⟨?_, .cons h.flush_eq_none_iff hrest.none_iff⟩
  cases hflush : s.flush.2 with
  | none =>
      rw [h.flush_eq_none_iff.mp hflush]
      exact ⟨ds, hds, harrive⟩
  | some blob =>
      have hlength := hmemory blob hflush
      rw [eq_toBlob_of_flush hflush] at hlength ⊢
      have hread := ofBlob_toBlob_of_length hlength
      refine ⟨s.data :: ds, ?_, ?_⟩
      · rw [List.filterMap_cons_some (f := id) rfl, List.mapM_cons, hread, hds]
        rfl
      · rw [List.flatten_cons, List.flatMap_cons]
        exact List.rel_append (h.arrives hwords) harrive

/-- Whatever is staged already, calls deliver it with what they push. -/
theorem Holds.delivers {calls : List Call} (h : Holds staged s)
    (hwords : ∀ batch ∈ batchesFrom staged calls,
      (batch.flatMap Item.trace).length < 2 ^ 32)
    (hmemory : ∀ blob ∈ s.sent calls, blob.payload.length < 2 ^ 64) :
    Delivers (batchesFrom staged calls) (s.flushed calls) := by
  induction calls generalizing staged s with
  | nil =>
      exact ⟨⟨[], rfl, .nil⟩, .nil⟩
  | cons call rest ih =>
      cases call with
      | push item =>
          exact ih (h.stage item) hwords hmemory
      | flush =>
          rcases List.forall_mem_cons.mp hwords with ⟨hstaged, hlater⟩
          -- Whatever a flush returns, the pool begins anew behind it.
          have hempty : Holds [] s.flush.1 := holds_nil rfl rfl
          have hrest : ∀ blob ∈ s.flush.1.sent rest,
              blob.payload.length < 2 ^ 64 := by
            intro blob hblob
            rcases List.mem_filterMap.mp hblob with ⟨result, hresult, hsome⟩
            exact hmemory blob (List.mem_filterMap.mpr
              ⟨result, List.mem_cons_of_mem _ hresult, hsome⟩)
          apply (ih hempty hlater hrest).cons h hstaged
          intro blob hblob
          exact hmemory blob (List.mem_filterMap.mpr
            ⟨_, List.mem_cons_self, hblob⟩)

end Flushing

/-- A buffer sends every item that is pushed, once and in order, with a last
flush for what is left; each record arrives as it was, and each request with its
own frames in the same blob. A flush returns nothing exactly if nothing was
pushed since the flush before. Places in the pool have 32 bits, and the lengths
of payloads in memory have 64. -/
theorem staging_loses_nothing (header : BlobHeader) (capacity : Nat)
    (calls : List Call)
    (hwords : ∀ batch ∈ batches (calls ++ [Call.flush]),
      (batch.flatMap Item.trace).length < 2 ^ 32)
    (hmemory : ∀ blob ∈ (new header capacity).sent (calls ++ [Call.flush]),
      blob.payload.length < 2 ^ 64) :
    ∃ ds,
      ((new header capacity).sent (calls ++ [Call.flush])).mapM Data.ofBlob =
        .ok ds ∧
      List.Forall₂ ArrivesAs (pushed calls) (ds.flatMap located) ∧
      List.Forall₂ (fun batch result => result = none ↔ batch = [])
        (batches (calls ++ [Call.flush]))
        ((new header capacity).flushed (calls ++ [Call.flush])) := by
  have hempty : Holds [] (new header capacity) := holds_nil rfl rfl
  have hdelivers := hempty.delivers hwords hmemory
  rcases hdelivers.arrive with ⟨ds, hds, harrive⟩
  refine ⟨ds, hds, ?_, hdelivers.none_iff⟩
  rw [← flatten_batches]
  exact harrive

def mixedCalls : List Call :=
  let r : Request := ⟨.executeKernel, 10, 1, 2, 3, 9⟩
  [.push (.request r [7, 0, 8]), .push (.record (.contextInfo ⟨1, 4⟩)),
    .push (.request r []), .flush, .flush, .push (.request r [0, 6])]

theorem staging_loses_nothing_mixed_calls :
    let buffer :=
      new ⟨0, 0, collectorId, .ofName ⟨"a", 1, none, none⟩, ⟨0, 1⟩⟩ 0
    (∀ batch ∈ batches (mixedCalls ++ [Call.flush]),
      (batch.flatMap Item.trace).length < 2 ^ 32) ∧
    (∀ blob ∈ buffer.sent (mixedCalls ++ [Call.flush]),
      blob.payload.length < 2 ^ 64) ∧
    (buffer.sent (mixedCalls ++ [Call.flush])).length = 2 ∧
    ∃ ds, (buffer.sent (mixedCalls ++ [Call.flush])).mapM Data.ofBlob = .ok ds ∧
      List.Forall₂ ArrivesAs (pushed mixedCalls) (ds.flatMap located) ∧
      List.Forall₂ (fun batch result => result = none ↔ batch = [])
        (batches (mixedCalls ++ [Call.flush]))
        (buffer.flushed (mixedCalls ++ [Call.flush])) := by
  intro buffer
  have hwords : ∀ batch ∈ batches (mixedCalls ++ [Call.flush]),
      (batch.flatMap Item.trace).length < 2 ^ 32 := by
    decide +kernel
  have hmemory : ∀ blob ∈ buffer.sent (mixedCalls ++ [Call.flush]),
      blob.payload.length < 2 ^ 64 := by
    decide +kernel
  exact ⟨hwords, hmemory, by decide +kernel,
    staging_loses_nothing _ 0 mixedCalls hwords hmemory⟩

end Staging
end Cuda
end CudaProfile
