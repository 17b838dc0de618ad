import CudaProfile.Cuda.Format
import CudaProfile.Proofs.Wire.Exact
/-!
# CUDA data is written exactly

Every record has one written form, and CUDA data can be written when its lists
and texts are not longer than a 64-bit length can say. What was read is always
writable, and so are any of its records in any order, as long as they are not
too many.
-/

namespace CudaProfile
namespace Cuda
namespace Format

open Wire Wire.Format

/-! ## Contents of records -/

def ShortText (text : String) : Prop :=
  (Utf8.encode text).length < 2 ^ 64

def ShortList {α : Type} (values : List α) : Prop :=
  values.length < 2 ^ 64

theorem exact_words : Exact (list word64) ShortList := by
  apply (exact_list exact_word64).congr
  intro values
  exact and_iff_left fun _ _ => trivial

theorem exact_all {α : Type} [DecidableEq α] {all : List α}
    (hsmall : all.length < 2 ^ 32) (hnodup : all.Nodup) (hall : ∀ a, a ∈ all) :
    Exact (enumeration all) fun _ => True :=
  (exact_enumeration hsmall hnodup).congr fun a => iff_true_intro (hall a)

theorem exact_contextInfo : Exact contextInfo fun _ => True := by
  have h : Exact contextInfo _ :=
    exact_through (exact_pair exact_word64 exact_word32) _ _ (fun _ => rfl)
      fun _ _ => rfl
  exact h.congr fun _ => by simp

theorem exact_deviceInfo : Exact deviceInfo fun i => ShortText i.name := by
  have h : Exact deviceInfo _ :=
    exact_through (exact_pair exact_word32 (exact_pair exact_text
      (exact_pair (exact_pair exact_word32 exact_word32)
        (exact_pair exact_word64 (exact_pair exact_word32
          (exact_pair exact_word32 (exact_pair exact_word32
            exact_word64))))))) _ _ (fun _ => rfl) fun _ _ => rfl
  exact h.congr fun _ => by simp [ShortText]

theorem exact_counterDescription :
    Exact counterDescription fun c => ShortText c.name := by
  have hkind : Exact sampleKind fun _ => True :=
    exact_all (by decide) (by decide) fun kind => by cases kind <;> decide
  have h : Exact counterDescription _ :=
    exact_through (exact_pair exact_text (exact_pair hkind exact_int32)) _ _
      (fun _ => rfl) fun _ _ => rfl
  exact h.congr fun _ => by simp [ShortText]

theorem exact_samplingConfig :
    Exact samplingConfig fun c =>
      ShortList c.events ∧ ∀ event ∈ c.events, ShortText event.name := by
  have h : Exact samplingConfig _ :=
    exact_through
      (exact_pair exact_word64 (exact_list exact_counterDescription))
      _ _ (fun _ => rfl) fun _ _ => rfl
  exact h.congr fun _ => by simp [ShortList]

theorem exact_request : Exact request fun _ => True := by
  have hkind : Exact requestKind fun _ => True :=
    exact_all (by decide) (by decide) fun kind => by cases kind <;> decide
  have h : Exact request _ :=
    exact_through (exact_pair hkind (exact_pair exact_word64
      (exact_pair exact_word64 (exact_pair exact_word64
        (exact_pair exact_word32 exact_word32))))) _ _ (fun _ => rfl)
      fun _ _ => rfl
  exact h.congr fun _ => by simp

theorem exact_completedExec :
    Exact completedExec fun e => ShortText e.function := by
  have hextents : Exact extents _ :=
    exact_through (exact_pair exact_int32 (exact_pair exact_int32 exact_int32))
      _ _ (fun _ => rfl) fun _ _ => rfl
  have hpreference : Exact cachePreference fun _ => True :=
    exact_all (by decide) (by decide) fun preference => by
      cases preference <;> decide
  have h : Exact completedExec _ :=
    exact_through (exact_pair exact_word64 (exact_pair exact_word64
      (exact_pair exact_word32 (exact_pair exact_word64
        (exact_pair exact_word64 (exact_pair exact_text
          (exact_pair hextents (exact_pair hextents
            (exact_pair hpreference (exact_pair exact_word32
              (exact_pair exact_word64 (exact_pair exact_word64
                exact_word64)))))))))))) _ _ (fun _ => rfl) fun _ _ => rfl
  exact h.congr fun _ => by simp [ShortText]

theorem exact_completedXfer : Exact completedXfer fun _ => True := by
  have hkind : Exact copyKind fun _ => True :=
    exact_all (by decide) (by decide) fun kind => by cases kind <;> decide
  have hmemory : Exact memoryKind fun _ => True :=
    exact_all (by decide) (by decide) fun kind => by cases kind <;> decide
  have h : Exact completedXfer _ :=
    exact_through (exact_pair exact_word64 (exact_pair exact_word64
      (exact_pair exact_word32 (exact_pair exact_word64
        (exact_pair exact_word64 (exact_pair exact_word64
          (exact_pair hkind (exact_pair hmemory
            (exact_pair hmemory exact_flag))))))))) _ _ (fun _ => rfl)
      fun _ _ => rfl
  exact h.congr fun _ => by simp

theorem exact_overflowSamples :
    Exact overflowSamples fun s => ShortList s.pcs ∧ ShortList s.counts := by
  have h : Exact overflowSamples _ :=
    exact_through (exact_pair exact_word64 (exact_pair exact_word64
      (exact_pair exact_words exact_words))) _ _ (fun _ => rfl) fun _ _ => rfl
  exact h.congr fun _ => by simp

theorem exact_periodicSamples :
    Exact periodicSamples fun s => ShortList s.counts := by
  have h : Exact periodicSamples _ :=
    exact_through (exact_pair exact_word64 exact_words) _ _ (fun _ => rfl)
      fun _ _ => rfl
  exact h.congr fun _ => by simp

theorem exact_loadedModule : Exact loadedModule fun m => ShortText m.path := by
  have h : Exact loadedModule _ :=
    exact_through (exact_pair exact_word64 (exact_pair exact_word64
      exact_text)) _ _ (fun _ => rfl) fun _ _ => rfl
  exact h.congr fun _ => by simp [ShortText]

theorem exact_unloadedModule : Exact unloadedModule fun _ => True := by
  have h : Exact unloadedModule _ :=
    exact_through (exact_pair exact_word64 exact_word64) _ _ (fun _ => rfl)
      fun _ _ => rfl
  exact h.congr fun _ => by simp

theorem exact_resolvedFunction :
    Exact resolvedFunction fun f => ShortText f.function := by
  have h : Exact resolvedFunction _ :=
    exact_through (exact_pair exact_word64 (exact_pair exact_word64
      (exact_pair exact_text exact_word64))) _ _ (fun _ => rfl) fun _ _ => rfl
  exact h.congr fun _ => by simp [ShortText]

/-! ## Records -/

/-- The lengths of the texts and lists of a record fit into 64 bits. -/
def Writable : Record → Prop
  | .deviceInfo info => ShortText info.name
  | .samplingConfig config =>
      ShortList config.events ∧ ∀ event ∈ config.events, ShortText event.name
  | .completedExec exec => ShortText exec.function
  | .overflowSamples samples =>
      ShortList samples.pcs ∧ ShortList samples.counts
  | .periodicSamples samples => ShortList samples.counts
  | .loadedModule loaded => ShortText loaded.path
  | .resolvedFunction resolved => ShortText resolved.function
  | _ => True

theorem exact_record : Exact record Writable := by
  apply exact_variants (by decide)
  · intro r
    cases r <;> simp [recordIndex]
  · intro number hlt bytes r rest
    match number, hlt with
    | 0, _ =>
        exact getAs_eq_ok_iff exact_contextInfo (by intro _; rfl)
          (by intro _; rfl) (by intro r; cases r <;> simp [recordIndex])
          bytes r rest
    | 1, _ =>
        exact getAs_eq_ok_iff exact_deviceInfo (by intro _; rfl)
          (by intro _; rfl) (by intro r; cases r <;> simp [recordIndex])
          bytes r rest
    | 2, _ =>
        exact getAs_eq_ok_iff exact_samplingConfig (by intro _; rfl)
          (by intro _; rfl) (by intro r; cases r <;> simp [recordIndex])
          bytes r rest
    | 3, _ =>
        exact getAs_eq_ok_iff exact_request (by intro _; rfl)
          (by intro _; rfl) (by intro r; cases r <;> simp [recordIndex])
          bytes r rest
    | 4, _ =>
        exact getAs_eq_ok_iff exact_completedExec (by intro _; rfl)
          (by intro _; rfl) (by intro r; cases r <;> simp [recordIndex])
          bytes r rest
    | 5, _ =>
        exact getAs_eq_ok_iff exact_completedXfer (by intro _; rfl)
          (by intro _; rfl) (by intro r; cases r <;> simp [recordIndex])
          bytes r rest
    | 6, _ =>
        exact getAs_eq_ok_iff exact_overflowSamples (by intro _; rfl)
          (by intro _; rfl) (by intro r; cases r <;> simp [recordIndex])
          bytes r rest
    | 7, _ =>
        exact getAs_eq_ok_iff exact_periodicSamples (by intro _; rfl)
          (by intro _; rfl) (by intro r; cases r <;> simp [recordIndex])
          bytes r rest
    | 8, _ =>
        exact getAs_eq_ok_iff exact_loadedModule (by intro _; rfl)
          (by intro _; rfl) (by intro r; cases r <;> simp [recordIndex])
          bytes r rest
    | 9, _ =>
        exact getAs_eq_ok_iff exact_unloadedModule (by intro _; rfl)
          (by intro _; rfl) (by intro r; cases r <;> simp [recordIndex])
          bytes r rest
    | 10, _ =>
        exact getAs_eq_ok_iff exact_resolvedFunction (by intro _; rfl)
          (by intro _; rfl) (by intro r; cases r <;> simp [recordIndex])
          bytes r rest

theorem length_put_record (r : Record) : 0 < (record.put r).length := by
  change 0 < (word32.put _ ++ _).length
  rw [List.length_append, length_put_word32]
  omega

/-! ## Data -/

def WritableData (d : Data) : Prop :=
  (ShortList d.records ∧ ∀ r ∈ d.records, Writable r) ∧
    ShortList d.stackTraces

theorem exact_data : Exact data WritableData :=
  exact_through (exact_pair (exact_list exact_record) exact_words) _ _
    (fun _ => rfl) fun _ _ => rfl

theorem WritableData.filter {d : Data} (h : WritableData d)
    (p : Record → Bool) : WritableData ⟨d.records.filter p, d.stackTraces⟩ := by
  rcases h with ⟨⟨hshort, hrecords⟩, htraces⟩
  refine ⟨⟨?_, ?_⟩, htraces⟩
  · exact Nat.lt_of_le_of_lt (List.length_filter_le p d.records) hshort
  · intro r hr
    exact hrecords r (List.mem_filter.mp hr).1

end Format

/-! ## Blobs -/

open Format

theorem ofBlob_eq_ok_iff {blob : Blob} {d : Data} :
    Data.ofBlob blob = .ok d ↔
      WritableData d ∧ blob.payload = Format.data.put d := by
  rw [← Wire.Format.decode_eq_ok_iff exact_data]
  unfold Data.ofBlob
  split
  · next h =>
    rw [h, Except.ok.injEq, Except.ok.injEq]
  · next h =>
    rw [h]
    constructor
    · intro heq
      cases heq
    · intro heq
      cases heq

theorem ofBlob_toBlob {d : Data} (h : WritableData d) (header : BlobHeader) :
    Data.ofBlob (d.toBlob header) = .ok d :=
  ofBlob_eq_ok_iff.mpr ⟨h, rfl⟩

theorem length_records_le {blob : Blob} {d : Data}
    (h : Data.ofBlob blob = .ok d) :
    d.records.length ≤ blob.payload.length := by
  rw [(ofBlob_eq_ok_iff.mp h).2]
  change _ ≤ ((Wire.Format.list record).put d.records ++ _).length
  rw [List.length_append]
  have := Wire.Format.length_le_length_put length_put_record d.records
  omega

end Cuda
end CudaProfile
