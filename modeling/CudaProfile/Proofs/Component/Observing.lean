import CudaProfile.Proofs.AddressBuffer
import CudaProfile.Proofs.Component.Collecting
/-!
# What a feature generator has observed

A feature generator counts the program counters of a blob before its data take
the blob in. A blob that can be read but is refused for one of its records
therefore leaves its program counters in the counts, while the data never tell
of them. Apart from those the counts and the data agree.
-/

namespace CudaProfile

open Cuda PerformanceData Pipeline

namespace Observing

def pcsRead (blob : Blob) : List Address :=
  match Data.ofBlob blob with
  | .ok data => data.pcs
  | .error _ => []

/-- The program counters in the blobs of CUDA data among messages that can be
read, whether they are accepted or not. -/
def observed (messages : List Message) : List Address :=
  (cudaBlobs messages).flatMap fun blob =>
    match Data.ofBlob blob with
    | .ok data => data.pcs
    | .error _ => []

theorem observed_eq (messages : List Message) :
    observed messages = (cudaBlobs messages).flatMap pcsRead :=
  rfl

theorem observed_append (before : List Message) (message : Message) :
    observed (before ++ [message]) = observed before ++ observed [message] := by
  unfold observed
  rw [cudaBlobs_append, List.flatMap_append]

end Observing

/-! ## Single blobs -/

namespace FeatureGenerator

variable (g : FeatureGenerator)

theorem receive_messages (blob : Blob) : (g.receive blob).messages = [] := by
  unfold receive
  split
  · rfl
  · split
    · rfl
    · rfl

theorem application_receive (blob : Blob) :
    (g.receive blob).state.application = g.application := by
  unfold receive
  split
  · rfl
  · split
    · rfl
    · rfl

theorem buffer_receive (blob : Blob) :
    (g.receive blob).state.buffer =
      g.buffer.observeAll (Observing.observed [.data blob]) := by
  unfold receive Observing.observed
  rw [cudaBlobs_data]
  by_cases hid : blob.header.id = collectorId
  · rw [if_neg (by simp [hid]), if_pos hid, List.flatMap_singleton]
    cases Data.ofBlob blob with
    | error error =>
        rfl
    | ok data =>
        rfl
  · rw [if_pos hid, if_neg hid]
    rfl

theorem receive_of_ne {blob : Blob} (hid : blob.header.id ≠ collectorId) :
    g.receive blob = .quiet g := by
  unfold receive
  rw [if_pos hid]

theorem data_receive {blob : Blob} (hid : blob.header.id = collectorId) :
    (g.receive blob).state.data = (g.data.apply blob).state := by
  unfold receive
  rw [if_neg (by simp [hid])]
  cases hblob : Data.ofBlob blob with
  | error error =>
      unfold apply
      rw [hblob]
      rfl
  | ok data =>
      rfl

theorem report?_eq {blob : Blob} (hid : blob.header.id = collectorId) :
    g.data.report? blob =
      match (g.receive blob).refusal, Data.ofBlob blob with
      | none, .ok data => some ⟨blob, data⟩
      | _, _ => none := by
  unfold receive report?
  rw [if_neg (by simp [hid])]
  cases Data.ofBlob blob with
  | error error =>
      rfl
  | ok data =>
      simp only [Reply.ofOutcome, Outcome.map]
      cases (g.data.apply blob).refusal with
      | none =>
          rfl
      | some error =>
          rfl

end FeatureGenerator

namespace Observing

def refused : PerformanceData → List Blob → List Blob
  | _, [] => []
  | p, blob :: rest =>
      if (p.apply blob).refusal = none then refused (p.apply blob).state rest
      else blob :: refused (p.apply blob).state rest

theorem perm_pcsRead (p : PerformanceData) (arrivals : List Blob) :
    (arrivals.flatMap pcsRead).Perm
      (((accepted p arrivals).flatMap fun report => report.data.pcs) ++
        (refused p arrivals).flatMap pcsRead) := by
  induction arrivals generalizing p with
  | nil =>
      exact .nil
  | cons blob rest ih =>
      rw [List.flatMap_cons]
      unfold refused
      by_cases hrefusal : (p.apply blob).refusal = none
      · rcases refusal_apply_eq_none_iff.mp hrefusal with ⟨d, hdata, _⟩
        have hpcs : pcsRead blob = d.pcs := by
          unfold pcsRead
          rw [hdata]
        rw [if_pos hrefusal, accepted_cons_of_accepted hdata hrefusal,
          List.flatMap_cons, List.append_assoc, hpcs]
        exact (ih _).append_left _
      · rcases apply_of_refused hrefusal with ⟨error, happly⟩
        have hstate : (p.apply blob).state = p := by
          rw [happly]
          rfl
        rw [if_neg hrefusal, accepted_cons_of_refused hrefusal, hstate,
          List.flatMap_cons]
        refine ((ih p).append_left _).trans ?_
        rw [← List.append_assoc, ← List.append_assoc]
        exact List.perm_append_comm.append_right _

/-! ## Messages -/

structure Observes (messages : List Message) (g : FeatureGenerator) : Prop where
  data : g.data = receive ∅ (cudaBlobs messages)
  buffer : g.buffer = AddressBuffer.empty.observeAll (observed messages)

variable {messages : List Message} {g : FeatureGenerator}

theorem Observes.data_step (h : Observes messages g) (blob : Blob) :
    Observes (messages ++ [.data blob]) (g.receive blob).state := by
  have hbuffer : (g.receive blob).state.buffer =
      AddressBuffer.empty.observeAll (observed (messages ++ [.data blob])) := by
    rw [g.buffer_receive, h.buffer, observed_append]
    exact List.foldl_append.symm
  refine ⟨?_, hbuffer⟩
  rw [cudaBlobs_append, cudaBlobs_data]
  by_cases hid : blob.header.id = collectorId
  · rw [if_pos hid, receive_append, ← h.data, g.data_receive hid]
    rfl
  · rw [if_neg hid, List.append_nil, g.receive_of_ne hid]
    exact h.data

theorem handle_other {message : Message}
    (h : ∀ blob, message ≠ .data blob) :
    (Component.handle g message).state.data = g.data ∧
      (Component.handle g message).state.buffer = g.buffer := by
  cases message with
  | data blob =>
      exact absurd rfl (h blob)
  | emitData thread =>
      change (g.sendData thread).state.data = _ ∧
        (g.sendData thread).state.buffer = _
      unfold FeatureGenerator.sendData
      cases g.data.reshuffled thread with
      | ok blobs =>
          exact ⟨rfl, rfl⟩
      | error error =>
          exact ⟨rfl, rfl⟩
  | emitFeatures thread =>
      change (g.sendFeatures thread).state.data = _ ∧
        (g.sendFeatures thread).state.buffer = _
      unfold FeatureGenerator.sendFeatures
      split
      · exact ⟨rfl, rfl⟩
      · exact ⟨rfl, rfl⟩
  | emitAddressBuffer emit =>
      cases emit with
      | false =>
          exact ⟨rfl, rfl⟩
      | true =>
          exact ⟨rfl, rfl⟩
  | _ =>
      exact ⟨rfl, rfl⟩

theorem Observes.other {g' : FeatureGenerator} {message : Message}
    (h : Observes messages g) (hother : ∀ blob, message ≠ .data blob)
    (hdata : g'.data = g.data) (hbuffer : g'.buffer = g.buffer) :
    Observes (messages ++ [message]) g' := by
  constructor
  · rw [cudaBlobs_append_of_ne messages hother, hdata]
    exact h.data
  · rw [observed_eq, cudaBlobs_append_of_ne messages hother, hbuffer]
    exact h.buffer

theorem Observes.step (h : Observes messages g) (message : Message) :
    Observes (messages ++ [message]) (Component.handle g message).state := by
  by_cases hdata : ∃ blob, message = .data blob
  · rcases hdata with ⟨blob, rfl⟩
    exact h.data_step blob
  · have hother : ∀ blob, message ≠ .data blob := by
      intro blob heq
      exact hdata ⟨blob, heq⟩
    rcases handle_other (g := g) hother with ⟨hsame, hbuffer⟩
    exact h.other hother hsame hbuffer

theorem observes_nil : Observes [] .empty :=
  ⟨rfl, rfl⟩

theorem observes_after (messages : List Message) :
    Observes messages (Component.after FeatureGenerator.empty messages) := by
  induction messages using List.reverseRecOn with
  | nil =>
      exact observes_nil
  | append_singleton before message ih =>
      rw [Component.after_append]
      exact ih.step message

/-! ## The counts and the data -/

theorem perm_pcsBy {threads : List ThreadName} {reports : List Report}
    (hnodup : threads.Nodup)
    (hthreads : ∀ report ∈ reports, report.thread ∈ threads) :
    (Collecting.pcsBy threads reports).Perm
      (reports.flatMap fun report => report.data.pcs) := by
  unfold Collecting.pcsBy
  rw [← List.flatMap_assoc]
  exact (perm_flatMap_filter_of_mem Report.thread hnodup hthreads).flatMap_right
    _

theorem Observes.count_eq (h : Observes messages g) {x : Address}
    (hcount : (observed messages).count x < 2 ^ 64) :
    (g.buffer.count x).toNat = (observed messages).count x := by
  rw [h.buffer, AddressBuffer.count_observeAll]
  change (0 + UInt64.ofNat _).toNat = _
  rw [UInt64.zero_add, UInt64.toNat_ofNat']
  exact Nat.mod_eq_of_lt hcount

/-- The program counters that a visit of the data shows, and those of the
refused blobs, are all that were read. -/
theorem Observes.visited (h : Observes messages g) :
    ∃ pcs, g.data.visitPcs (keepUpTo none) [] = .ok (pcs, true) ∧
      (observed messages).Perm
        (pcs ++ (refused ∅ (cudaBlobs messages)).flatMap pcsRead) := by
  have hshows := Collecting.shows_receive (cudaBlobs messages)
  rw [← h.data] at hshows
  refine ⟨_, hshows.all, ?_⟩
  refine (perm_pcsRead ∅ (cudaBlobs messages)).trans ?_
  apply List.Perm.append_right
  refine (perm_pcsBy g.data.threads.nodup_keys ?_).symm
  intro report hreport
  rw [h.data]
  exact mem_keys_of_accepted hreport

theorem flatMap_pcsRead_eq_nil_iff {blobs : List Blob} :
    (∀ x, (blobs.flatMap pcsRead).count x = 0) ↔
      ∀ blob ∈ blobs, pcsRead blob = [] := by
  rw [← List.flatMap_eq_nil_iff, List.eq_nil_iff_forall_not_mem]
  simp only [List.count_eq_zero]

theorem handle_refused {blob : Blob}
    (h : (Component.handle g (.data blob)).refusal ≠ none) :
    observed [.data blob] = pcsRead blob ∧
      (Component.handle g (.data blob)).state =
        { g with buffer := g.buffer.observeAll (pcsRead blob) } := by
  change (g.receive blob).refusal ≠ none at h
  change _ ∧ (g.receive blob).state = _
  unfold FeatureGenerator.receive at h ⊢
  by_cases hid : blob.header.id = collectorId
  · rw [observed_eq, cudaBlobs_data, if_pos hid, List.flatMap_singleton]
    refine ⟨rfl, ?_⟩
    rw [if_neg (not_not.mpr hid)] at h ⊢
    unfold pcsRead
    cases hdata : Data.ofBlob blob with
    | error error =>
        rfl
    | ok d =>
        rw [hdata] at h
        simp only [Reply.ofOutcome, Outcome.map] at h ⊢
        rcases apply_of_refused h with ⟨error, happly⟩
        rw [happly]
        rfl
  · rw [if_pos hid] at h
    exact absurd rfl h

theorem Observes.buffer_of_refused (h : Observes messages g) {blob : Blob}
    (hcounts : ∀ x, (observed (messages ++ [.data blob])).count x < 2 ^ 64)
    (hrefused : (Component.handle g (.data blob)).refusal ≠ none) :
    (Component.handle g (.data blob)).state.buffer = g.buffer ↔
      pcsRead blob = [] := by
  rcases handle_refused hrefused with ⟨hread, hstate⟩
  rw [hstate]
  apply AddressBuffer.observeAll_eq_self_iff
  intro x
  have hcount := hcounts x
  rw [observed_append, List.count_append, hread] at hcount
  rw [h.count_eq (Nat.lt_of_le_of_lt (Nat.le_add_right _ _) hcount)]
  exact hcount

/-- After any messages, every address is counted as often as a visit of the data
shows it and, besides, as often as refused blobs tell of it. So the counts and
the data agree exactly if no refused blob has program counters that can be
read, and a blob that is refused leaves the data as they are but not the counts
if it has any. -/
theorem observations_match_data_iff (messages : List Message)
    (hcounts : ∀ x, (observed messages).count x < 2 ^ 64) :
    let g := Component.after FeatureGenerator.empty messages
    let lost := refused ∅ (cudaBlobs messages)
    ∃ pcs, g.data.visitPcs (keepUpTo none) [] = .ok (pcs, true) ∧
      (∀ x, (g.buffer.count x).toNat =
        pcs.count x + (lost.flatMap pcsRead).count x) ∧
      ((∀ x, (g.buffer.count x).toNat = pcs.count x) ↔
        ∀ blob ∈ lost, pcsRead blob = []) ∧
      ∀ blob, (Component.handle g (.data blob)).refusal ≠ none →
        (Component.handle g (.data blob)).state =
            { g with buffer := g.buffer.observeAll (pcsRead blob) } ∧
          ((∀ x, (observed (messages ++ [.data blob])).count x < 2 ^ 64) →
            ((Component.handle g (.data blob)).state.buffer = g.buffer ↔
              pcsRead blob = [])) := by
  intro g lost
  have hobserves : Observes messages g := observes_after messages
  rcases hobserves.visited with ⟨pcs, hvisit, hperm⟩
  have hcount (x : Address) : (g.buffer.count x).toNat =
      pcs.count x + (lost.flatMap pcsRead).count x := by
    rw [hobserves.count_eq (hcounts x), hperm.count_eq, List.count_append]
  refine ⟨pcs, hvisit, hcount, ?_, ?_⟩
  · rw [← flatMap_pcsRead_eq_nil_iff]
    apply forall_congr'
    intro x
    rw [hcount]
    exact Nat.add_eq_left
  · intro blob hrefused
    exact ⟨(handle_refused hrefused).2,
      fun hmore => hobserves.buffer_of_refused hmore hrefused⟩

/-- A request with its frames, and then a sample of one value while there are no
counters. -/
def refusedRequest : Blob :=
  Data.toBlob ⟨[.request ⟨.memoryCopy, 10, 1, 2, 3, 0⟩,
      .periodicSamples ⟨20, [5]⟩], [7, 8, 0]⟩
    ⟨0, 0, collectorId, .ofName ⟨"a", 1, none, none⟩, ⟨0, 1⟩⟩

theorem observations_match_data_iff_refused_request :
    let messages := Collecting.twoReports ++ [.data refusedRequest]
    let g := Component.after FeatureGenerator.empty messages
    (∀ x, (observed messages).count x < 2 ^ 64) ∧
      (g.data.visitPcs (keepUpTo none) []).toOption =
        some ([9, 7, 7, 8], true) ∧
      ∀ x, (g.buffer.count x).toNat =
        [9, 7, 7, 8].count x + [7, 8].count x := by
  intro messages g
  have hcounts : ∀ x, (observed messages).count x < 2 ^ 64 := by
    intro x
    refine Nat.lt_of_le_of_lt List.count_le_length ?_
    decide +kernel
  have hvisit : (g.data.visitPcs (keepUpTo none) []).toOption =
      some ([9, 7, 7, 8], true) := by
    decide +kernel
  have hlost : (refused ∅ (cudaBlobs messages)).flatMap pcsRead = [7, 8] := by
    decide +kernel
  refine ⟨hcounts, hvisit, ?_⟩
  rcases observations_match_data_iff messages hcounts with
    ⟨pcs, hpcs, hcount, _⟩
  rw [show g.data.visitPcs (keepUpTo none) [] = _ from hpcs] at hvisit
  cases hvisit
  rw [← hlost]
  exact hcount

/-- The frames of a request are counted although the data never tell of it. -/
theorem refused_request_is_observed :
    ¬∀ messages : List Message,
      (∀ x, (observed messages).count x < 2 ^ 64) →
        let g := Component.after FeatureGenerator.empty messages
        ∃ pcs, g.data.visitPcs (keepUpTo none) [] = .ok (pcs, true) ∧
          ∀ x, (g.buffer.count x).toNat = pcs.count x := by
  intro h
  have hcounts : ∀ x, (observed [.data refusedRequest]).count x < 2 ^ 64 := by
    intro x
    refine Nat.lt_of_le_of_lt List.count_le_length ?_
    decide +kernel
  rcases h [.data refusedRequest] hcounts with ⟨pcs, hvisit, hcount⟩
  have hnone : ((Component.after FeatureGenerator.empty
      [.data refusedRequest]).data.visitPcs (keepUpTo none) []).toOption =
        some ([], true) := by
    decide +kernel
  rw [hvisit] at hnone
  cases hnone
  exact absurd (hcount 7) (by decide +kernel)

end Observing
end CudaProfile
