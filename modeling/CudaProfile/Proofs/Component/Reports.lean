import CudaProfile.Component.Stage
import CudaProfile.Proofs.Component.Pipeline
import CudaProfile.Proofs.Cuda.Run
/-!
# Reports of CUDA data to a pipeline

Of the messages to a pipeline, blobs of CUDA data that are not refused are heard.
Where a stage that the blobs reach keeps their data, those are heard that the
data accept. Which stages there are besides does not matter here.
-/

namespace CudaProfile
namespace Pipeline

open Cuda PerformanceData

/-! ## Blobs among messages -/

def cudaBlobs (messages : List Message) : List Blob :=
  messages.filterMap fun
    | .data blob => if blob.header.id = collectorId then some blob else none
    | _ => none

theorem cudaBlobs_append (before : List Message) (message : Message) :
    cudaBlobs (before ++ [message]) =
      cudaBlobs before ++ cudaBlobs [message] :=
  List.filterMap_append

theorem cudaBlobs_data (blob : Blob) :
    cudaBlobs [.data blob] =
      if blob.header.id = collectorId then [blob] else [] := by
  unfold cudaBlobs
  by_cases hid : blob.header.id = collectorId
  · simp [hid]
  · simp [hid]

theorem cudaBlobs_append_of_ne (before : List Message) {message : Message}
    (h : ∀ blob, message ≠ .data blob) :
    cudaBlobs (before ++ [message]) = cudaBlobs before := by
  rw [cudaBlobs_append]
  cases message with
  | data blob =>
      exact absurd rfl (h blob)
  | _ =>
      exact List.append_nil _

theorem id_of_mem_cudaBlobs {messages : List Message} {blob : Blob}
    (h : blob ∈ cudaBlobs messages) : blob.header.id = collectorId := by
  rcases List.mem_filterMap.mp h with ⟨message, _, heq⟩
  split at heq
  · split at heq
    · next hid =>
      cases heq
      exact hid
    · cases heq
  · cases heq

/-! ## What is heard -/

/-- The report of a message to the pipeline, if it is an accepted blob of CUDA
data. -/
def heardFrom (stages : List Stage) : Message → Option Report
  | .data blob =>
      match (send stages (.data blob)).refusal, Data.ofBlob blob with
      | none, .ok data =>
          if blob.header.id = collectorId then some ⟨blob, data⟩ else none
      | _, _ => none
  | _ => none

/-- The reports of messages to the pipeline, each sent on its own. -/
def heard : List Stage → List Message → List Report
  | _, [] => []
  | stages, message :: rest =>
      (heardFrom stages message).toList ++
        heard (send stages message).state rest

theorem heardFrom_blob (stages : List Stage) (blob : Blob) :
    heardFrom stages (.data blob) =
      if blob.header.id = collectorId then
        match (send stages (.data blob)).refusal, Data.ofBlob blob with
        | none, .ok data => some ⟨blob, data⟩
        | _, _ => none
      else none := by
  by_cases hid : blob.header.id = collectorId
  · simp only [heardFrom, if_pos hid]
  · simp only [heardFrom, if_neg hid]
    split
    · rfl
    · rfl

theorem heard_append (stages : List Stage) (before later : List Message) :
    heard stages (before ++ later) =
      heard stages before ++ heard (after stages before) later := by
  induction before generalizing stages with
  | nil =>
      rfl
  | cons message rest ih =>
      rw [List.cons_append, heard, ih, ← List.append_assoc]
      rfl

section Hearing

variable {start reached : List Stage} {before : List Message}

theorem heard_snoc (hafter : after start before = reached)
    (message : Message) :
    heard start (before ++ [message]) =
      heard start before ++ (heardFrom reached message).toList := by
  rw [heard_append, hafter]
  apply congrArg
  exact List.append_nil _

theorem heard_eq_accepted_data (hafter : after start before = reached)
    (h : heard start before = accepted ∅ (cudaBlobs before)) {blob : Blob}
    (hheard : heardFrom reached (.data blob) =
      if blob.header.id = collectorId then
        (receive ∅ (cudaBlobs before)).report? blob
      else none) :
    heard start (before ++ [.data blob]) =
      accepted ∅ (cudaBlobs (before ++ [.data blob])) := by
  rw [heard_snoc hafter, hheard, h, cudaBlobs_append, cudaBlobs_data]
  by_cases hid : blob.header.id = collectorId
  · rw [if_pos hid, if_pos hid, accepted_append]
    apply congrArg
    exact (List.append_nil _).symm
  · rw [if_neg hid, if_neg hid, List.append_nil]
    exact List.append_nil _

theorem heard_eq_accepted_other (hafter : after start before = reached)
    (h : heard start before = accepted ∅ (cudaBlobs before))
    {message : Message} (hdata : ∀ blob, message ≠ .data blob) :
    heard start (before ++ [message]) =
      accepted ∅ (cudaBlobs (before ++ [message])) := by
  rw [heard_snoc hafter, cudaBlobs_append_of_ne before hdata, ← h]
  cases message with
  | data blob =>
      exact absurd rfl (hdata blob)
  | _ =>
      exact List.append_nil _

end Hearing

/-! ## A run of two threads -/

/-- Two threads, one of which reports the completion for the other, and a blob
that cannot be read. -/
def twoThreads : List Message :=
  let thread (pid : UInt64) : ThreadRecord := .ofName ⟨"a", pid, none, none⟩
  let header (pid : UInt64) : BlobHeader :=
    ⟨0, 0, collectorId, thread pid, ⟨0, 1⟩⟩
  [.attachedToThreads ⟨[thread 1, thread 2]⟩,
    .data (Data.toBlob ⟨[.completedXfer ⟨1, 2, 3, 20, 30, 64, .hostToDevice,
      .pageable, .device, false⟩], []⟩ (header 1)),
    .data ⟨header 1, [255]⟩,
    .data (Data.toBlob ⟨[.request ⟨.memoryCopy, 10, 1, 2, 3, 0⟩,
      .request ⟨.memoryCopy, 11, 1, 2, 4, 0⟩], [7, 8, 0]⟩ (header 2)),
    .threadsStateChanged ⟨[thread 1], .terminated⟩]

def lastChange : Message :=
  .threadsStateChanged ⟨[.ofName ⟨"a", 2, none, none⟩], .terminated⟩

end Pipeline
end CudaProfile
