import CudaProfile.Proofs.Component.Replay
/-!
# What was sent is sent again

After one replay every completion is with the thread that made the request, if
no two threads make requests of one key. Then no thread gives anything away and
none gets anything, so each of them shows the very blobs that it has, and the
threads follow one another as they did before.
-/

namespace CudaProfile
namespace Cuda

open Std Lexicographic

/-! ## Settled reports -/

/-- Every record was reported by the thread that it belongs to. -/
def Settled (reports : List Report) : Prop :=
  ∀ report ∈ reports, ∀ r ∈ report.data.records,
    destination reports (report.thread, r) = report.thread

theorem destination_eq {reports reports' : List Report}
    (h : ∀ key, lastRequester reports' key = lastRequester reports key)
    (e : ThreadName × Record) :
    destination reports' e = destination reports e := by
  unfold destination
  simp only [h]

theorem destination_of_destination {reports : List Report} {t u : ThreadName}
    {r : Record} (h : destination reports (u, r) = t) :
    destination reports (t, r) = t := by
  unfold destination at h ⊢
  cases hkey : r.completionKey? with
  | none =>
      rfl
  | some key =>
      rw [hkey] at h
      simp only at h ⊢
      cases howner : lastRequester reports key with
      | none =>
          rfl
      | some owner =>
          rw [howner] at h
          exact h

namespace PerformanceData

section Replay

variable {arrivals : List Blob}

theorem reshuffled_of_settled (h : Settled (accepted ∅ arrivals))
    {t : ThreadName} (ht : t ∈ (receive ∅ arrivals).threads.keys) :
    (receive ∅ arrivals).reshuffled t = .ok ((receive ∅ arrivals).blobs t) := by
  have howners := owners_receive arrivals
  have hown : ((receive ∅ arrivals).blobs t).mapM
      ((receive ∅ arrivals).ownPart t) =
        .ok (((receive ∅ arrivals).blobs t).map some) := by
    apply mapM_eq_ok
    intro blob hblob
    rw [blobs_receive] at hblob
    rcases List.mem_map.mp hblob with ⟨report, hreport, rfl⟩
    rcases List.mem_filter.mp hreport with ⟨hmem, hthread⟩
    have hkept : (report.data.records.filter fun r =>
        !(receive ∅ arrivals).isForeignTo t r) = report.data.records := by
      apply List.filter_eq_self.mpr
      intro r hr
      rw [isForeignTo_eq howners, ← of_decide_eq_true hthread]
      simp [h report hmem r hr]
    unfold ownPart
    rw [ofBlob_of_mem_accepted hmem]
    simp only [bind, Except.bind, hkept]
    rfl
  have hgained : (receive ∅ arrivals).adopted (accepted ∅ arrivals) t = [] := by
    have hperm := perm_othersReports (reported_receive arrivals).keys t
    apply List.flatMap_eq_nil_iff.mpr
    intro report hreport
    rcases List.mem_filter.mp (hperm.mem_iff.mp hreport) with ⟨hmem, hne⟩
    have hne := of_decide_eq_true hne
    apply List.filter_eq_nil_iff.mpr
    intro r hr
    rw [isOwnedBy_eq howners hne, h report hmem r hr]
    simpa using hne
  rcases List.exists_cons_of_ne_nil (blobs_ne_nil ht) with
    ⟨first, rest, hfirst⟩
  unfold adopted at hgained
  rw [List.flatMap_def] at hgained
  rw [reshuffled_of_cons hfirst hown (mapM_adoptedFrom t), hgained,
    List.filterMap_map]
  simp [adoptedBlobs]

theorem sentBlobs_of_settled (h : Settled (accepted ∅ arrivals)) :
    (receive ∅ arrivals).sentBlobs = ((receive ∅ arrivals).allBlobs, none) := by
  unfold sentBlobs
  rw [allBlobs_eq]
  exact DataAggregator.blobsOf_eq fun t ht => reshuffled_of_settled h ht

/-! ## The order of what is sent -/

theorem allBlobs_receive_sent {sent : List Report} (hsent : Sent arrivals sent)
    (haccepts : Accepts ∅ (sent.map Report.blob)) :
    (receive ∅ (sent.map Report.blob)).allBlobs = sent.map Report.blob := by
  have hreports := accepted_of_accepts hsent.readable haccepts
  rcases hsent.parts with ⟨shown, hshown, hparts⟩
  have hthread : ∀ t ∈ (receive ∅ arrivals).threads.keys,
      ∀ report ∈ shown t, report.thread = t :=
    fun t ht => (hshown t ht).thread
  have hkeys : ∀ t, t ∈ (receive ∅ (sent.map Report.blob)).threads.keys ↔
      ∃ report ∈ sent, report.thread = t := by
    have hreported := (reported_receive (sent.map Report.blob)).keys
    rw [hreports] at hreported
    exact hreported
  have hsub : ∀ t ∈ (receive ∅ (sent.map Report.blob)).threads.keys,
      t ∈ (receive ∅ arrivals).threads.keys := by
    intro t ht
    rcases (hkeys t).mp ht with ⟨report, hreport, rfl⟩
    rw [hparts] at hreport
    rcases List.mem_flatMap.mp hreport with ⟨u, hu, hmem⟩
    rw [hthread u hu report hmem]
    exact hu
  have hsilent : ∀ t, decide
      (t ∈ (receive ∅ (sent.map Report.blob)).threads.keys) = false →
        (sent.filter fun report => report.thread = t) = [] := by
    intro t ht
    apply List.filter_eq_nil_iff.mpr
    intro report hreport heq
    exact of_decide_eq_false ht
      ((hkeys t).mpr ⟨report, hreport, of_decide_eq_true heq⟩)
  have hgrouped : ((receive ∅ (sent.map Report.blob)).threads.keys.flatMap
      fun t => sent.filter fun report => report.thread = t) = sent := by
    rw [← OrderedMap.filter_keys hsub, flatMap_filter hsilent]
    conv =>
      rhs
      rw [hparts]
    apply List.flatMap_congr
    intro t ht
    rw [hparts]
    exact (filter_flatMap_key Report.thread
      (receive ∅ arrivals).threads.nodup_keys hthread t).trans (if_pos ht)
  have hblobs : (receive ∅ (sent.map Report.blob)).blobs = fun t =>
      (sent.filter fun report => report.thread = t).map Report.blob := by
    funext t
    rw [blobs_receive, hreports]
  rw [allBlobs_eq, hblobs, ← List.map_flatMap, hgrouped]

/-! ## Idempotence -/

theorem settled_sent {sent : List Report} (hsent : Sent arrivals sent)
    (hunshared : Unshared (asked (accepted ∅ arrivals))) : Settled sent := by
  intro report hreport r hr
  rcases hsent.parts with ⟨shown, hshown, hparts⟩
  rw [destination_eq (lastRequester_of_perm hunshared hsent.asked)]
  rw [hparts] at hreport
  rcases List.mem_flatMap.mp hreport with ⟨t, ht, hmem⟩
  rw [(hshown t ht).thread report hmem]
  have hrecord := (hshown t ht).records.mem_iff.mp
    (List.mem_flatMap.mpr ⟨report, hmem, hr⟩)
  rcases List.mem_map.mp hrecord with ⟨⟨u, r'⟩, htold, heq⟩
  subst heq
  exact destination_of_destination
    (of_decide_eq_true (List.mem_filter.mp htold).2)

/-- If no two threads request the same key, and what is sent is accepted blob by
blob, then exactly the same is sent again, headers and payloads included. -/
theorem reshuffling_is_idempotent (arrivals : List Blob)
    (h : (receive ∅ arrivals).InMemory)
    (hunshared : Unshared (asked (accepted ∅ arrivals))) :
    ∃ blobs, (receive ∅ arrivals).sentBlobs = (blobs, none) ∧
      (Accepts ∅ blobs → (receive ∅ blobs).sentBlobs = (blobs, none)) := by
  rcases exists_sent h with ⟨sent, hsent⟩
  refine ⟨sent.map Report.blob, hsent.blobs, ?_⟩
  intro haccepts
  have hsettled : Settled (accepted ∅ (sent.map Report.blob)) := by
    rw [accepted_of_accepts hsent.readable haccepts]
    exact settled_sent hsent hunshared
  rw [sentBlobs_of_settled hsettled, allBlobs_receive_sent hsent haccepts]

/-- What is sent differs from what arrived, and is then sent unchanged. -/
theorem reshuffling_is_idempotent_reported_elsewhere :
    ∃ blobs, (receive ∅ reportedElsewhere).sentBlobs = (blobs, none) ∧
      blobs ≠ reportedElsewhere ∧
      (receive ∅ blobs).sentBlobs = (blobs, none) := by
  have hmemory : (receive ∅ reportedElsewhere).InMemory := by
    unfold InMemory
    decide +kernel
  rcases reshuffling_is_idempotent reportedElsewhere hmemory
      (by decide +kernel) with ⟨blobs, hblobs, hreplay⟩
  have hsent : (receive ∅ reportedElsewhere).sentBlobs.1 = blobs :=
    congrArg Prod.fst hblobs
  have haccepts : Accepts ∅ blobs := by
    rw [← hsent]
    decide +kernel
  refine ⟨blobs, hblobs, ?_, hreplay haccepts⟩
  rw [← hsent]
  decide +kernel

end Replay

end PerformanceData
end Cuda
end CudaProfile
