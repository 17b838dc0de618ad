import CudaProfile.Proofs.Cuda.Acceptance
import CudaProfile.Proofs.Cuda.Reshuffling
/-!
# Requests and completions never wait for each other

A key is never that of a request and of a completion that both wait: whichever
of the two comes second finds the other one and they are joined, so that
nothing is left under the key. This holds in every state that data can be in,
also between two records of a blob, and however keys are used.

A request waits for the thread that made the latest request of its key, and a
thread that made a request has stored the blob that told of it. So there is a
blob after whose header that of adopted completions can be made.
-/

namespace CudaProfile
namespace Cuda

open Std Lexicographic

def Pending.addTo (pending : Pending) (device : UInt32)
    (completion : Completion) (data : ThreadData) : ThreadData :=
  match pending.request.kind, completion with
  | .memoryCopy, .xfer x =>
      { data with transfers := data.transfers ++ [pending.transfer device x] }
  | .executeKernel, .exec e =>
      { data with kernels := data.kernels ++ [pending.execution device e] }
  | .memoryCopy, .exec _ => data
  | .executeKernel, .xfer _ => data

namespace PerformanceData

/-! ## States -/

/-- The states that data can be in: after any blobs, refused or not, and after
some of the records of a further one that is not refused. -/
inductive Reached : PerformanceData → Prop
  | between (arrivals : List Blob) : Reached (receive ∅ arrivals)
  | within {arrivals : List Blob} {blob : Blob} {d : Data}
      {before after : List Record}
      (hblob : Data.ofBlob blob = .ok d)
      (hrecords : d.records = before ++ after)
      (hcheck : checkAll d (receive ∅ arrivals).counters.length d.records =
        .ok ()) :
      Reached (Outcome.forEach (applyRecord blob.thread d)
        ((receive ∅ arrivals).keep blob) before).state

/-- What waits under which key, and for which thread. -/
structure Bookkept (p : PerformanceData) : Prop where
  apart : ∀ key, p.requests.get? key = none ∨ p.parked.get? key = none
  owned : ∀ key pending, p.requests.get? key = some pending →
    pending.request.key = key ∧ p.owners.get? key = some pending.thread
  stored : ∀ key t, p.owners.get? key = some t → p.blobs t ≠ []
  reported : ∀ t ∈ p.threads.keys, p.blobs t ≠ []

/-- A request and a completion of its key have been joined: nothing waits under
the key any more, all else waits as before, and what the device did is added to
the data of the thread of the request. -/
structure Joined (p q : PerformanceData) (pending : Pending)
    (completion : Completion) : Prop where
  requests : ∀ key, q.requests.get? key =
    if key = pending.request.key then none else p.requests.get? key
  parked : ∀ key, q.parked.get? key =
    if key = pending.request.key then none else p.parked.get? key
  threads : ∀ t, q.thread t =
    if t = pending.thread then
      pending.addTo ((p.contexts.get? pending.request.context).getD 0)
        completion (p.thread t)
    else p.thread t

section Bookkept

variable {p q : PerformanceData}

theorem thread_changeThread_eq (p : PerformanceData) (name t : ThreadName)
    (f : ThreadData → ThreadData) :
    (p.changeThread name f).thread t =
      if t = name then f (p.thread t) else p.thread t := by
  rw [thread_changeThread]
  split
  · next h =>
    rw [h]
  · rfl

theorem thread_join (p : PerformanceData) (pending : Pending)
    (completion : Completion) (t : ThreadName) :
    (p.join pending completion).thread t =
      if t = pending.thread then
        pending.addTo ((p.contexts.get? pending.request.context).getD 0)
          completion (p.thread t)
      else p.thread t := by
  unfold join Pending.addTo
  simp only
  cases pending.request.kind with
  | memoryCopy =>
      cases completion with
      | xfer x =>
          exact thread_changeThread_eq _ _ _ _
      | exec e =>
          exact (ite_self _).symm
  | executeKernel =>
      cases completion with
      | xfer x =>
          exact (ite_self _).symm
      | exec e =>
          exact thread_changeThread_eq _ _ _ _

theorem Bookkept.requests_eq_none (h : Bookkept p) {key : RequestKey}
    {completion : Completion} (hparked : p.parked.get? key = some completion) :
    p.requests.get? key = none := by
  rcases h.apart key with hnone | hnone
  · exact hnone
  · cases hparked.symm.trans hnone

theorem Bookkept.parked_eq_none (h : Bookkept p) {key : RequestKey}
    {pending : Pending} (hrequest : p.requests.get? key = some pending) :
    p.parked.get? key = none := by
  rcases h.apart key with hnone | hnone
  · cases hrequest.symm.trans hnone
  · exact hnone

theorem Bookkept.blobs_pending (h : Bookkept p) {key : RequestKey}
    {pending : Pending} (hrequest : p.requests.get? key = some pending) :
    p.blobs pending.thread ≠ [] :=
  h.stored key pending.thread (h.owned key pending hrequest).2

/-! ## Joins -/

theorem Bookkept.joined_enqueue (h : Bookkept p) {name : ThreadName}
    {trace : List Address} {r : Request} {completion : Completion}
    (hparked : p.parked.get? r.key = some completion) :
    ∃ number, (p.enqueue name trace r).callSites[number]? = some trace ∧
      Joined p (p.enqueue name trace r) ⟨name, r, number⟩ completion := by
  rcases p.enqueue_eq name trace r with ⟨sites, number, _, hsite, heq⟩
  rw [hparked] at heq
  rw [heq]
  have hnone := h.requests_eq_none hparked
  refine ⟨number, ?_, ?_⟩
  · rw [callSites_join]
    exact hsite
  · constructor
    · intro key
      rw [requests_join]
      split
      · next hkey =>
        rw [hkey]
        exact hnone
      · rfl
    · intro key
      rw [parked_join]
      exact OrderedMap.get?_erase p.parked r.key key
    · intro t
      exact thread_join _ _ _ t

theorem Bookkept.joined_complete (h : Bookkept p) {key : RequestKey}
    {pending : Pending} (hrequest : p.requests.get? key = some pending)
    (completion : Completion) :
    Joined p (p.complete key completion) pending completion := by
  have hkey := (h.owned key pending hrequest).1
  have hnone := h.parked_eq_none hrequest
  unfold complete
  rw [hrequest]
  constructor
  · intro other
    rw [requests_join, hkey]
    exact OrderedMap.get?_erase p.requests key other
  · intro other
    rw [parked_join, hkey]
    split
    · next hother =>
      rw [hother]
      exact hnone
    · rfl
  · intro t
    exact thread_join _ _ _ t

/-! ## The invariant -/

theorem bookkept_empty : Bookkept (∅ : PerformanceData) := by
  constructor
  · intro key
    exact Or.inl rfl
  · intro key pending h
    cases h
  · intro key t h
    cases h
  · intro t h
    cases h

theorem blobs_keep_ne_nil (p : PerformanceData) (blob : Blob) :
    (p.keep blob).blobs blob.thread ≠ [] := by
  rw [blobs_keep, if_pos rfl]
  exact List.append_ne_nil_of_right_ne_nil _ (List.cons_ne_nil _ _)

theorem Bookkept.keep (h : Bookkept p) (blob : Blob) :
    Bookkept (p.keep blob) := by
  have hgrows : ∀ t, p.blobs t ≠ [] → (p.keep blob).blobs t ≠ [] := by
    intro t ht
    rw [blobs_keep]
    split
    · exact List.append_ne_nil_of_left_ne_nil ht _
    · exact ht
  constructor
  · exact h.apart
  · exact h.owned
  · intro key t howner
    exact hgrows t (h.stored key t howner)
  · intro t ht
    rcases mem_keys_changeThread.mp ht with rfl | ht
    · exact p.blobs_keep_ne_nil blob
    · exact hgrows t (h.reported t ht)

theorem Bookkept.join (h : Bookkept p) (pending : Pending)
    (hthread : p.blobs pending.thread ≠ []) (completion : Completion) :
    Bookkept (p.join pending completion) := by
  constructor
  · intro key
    rw [requests_join, parked_join]
    exact h.apart key
  · intro key waiting hget
    rw [requests_join] at hget
    rw [owners_join]
    exact h.owned key waiting hget
  · intro key t howner
    rw [owners_join] at howner
    rw [blobs_join]
    exact h.stored key t howner
  · intro t ht
    rw [blobs_join]
    rcases mem_keys_join _ _ _ ht with rfl | ht
    · exact hthread
    · exact h.reported t ht

/-- A request comes from a thread with a blob. Under its key there is a request
or a completion that waits, but not both. -/
theorem Bookkept.enqueue (h : Bookkept p) {name : ThreadName}
    (hname : p.blobs name ≠ []) (trace : List Address) (r : Request) :
    Bookkept (p.enqueue name trace r) := by
  have hstored : ∀ key t,
      (p.owners.insert r.key name).get? key = some t → p.blobs t ≠ [] := by
    intro key t howner
    rw [OrderedMap.get?_insert] at howner
    split at howner
    · cases howner
      exact hname
    · exact h.stored key t howner
  rcases p.enqueue_eq name trace r with ⟨sites, number, _, _, heq⟩
  rw [heq]
  split
  · next completion hparked =>
    have htaken : Bookkept
        { p with
          callSites := sites
          owners := p.owners.insert r.key name
          parked := p.parked.erase r.key } := by
      constructor
      · intro key
        rw [OrderedMap.get?_erase]
        split
        · exact Or.inr rfl
        · exact h.apart key
      · intro key pending hget
        rcases h.owned key pending hget with ⟨hkey, howner⟩
        -- Under the key of the new owner only the completion waited.
        have hother : key ≠ r.key := by
          intro hsame
          rw [hsame, h.requests_eq_none hparked] at hget
          cases hget
        rw [OrderedMap.get?_insert, if_neg hother]
        exact ⟨hkey, howner⟩
      · exact hstored
      · exact h.reported
    exact htaken.join ⟨name, r, number⟩ hname completion
  · next hparked =>
    constructor
    · intro key
      by_cases hkey : key = r.key
      · rw [hkey]
        exact Or.inr hparked
      · rw [OrderedMap.get?_insert, if_neg hkey]
        exact h.apart key
    · intro key pending hget
      rw [OrderedMap.get?_insert] at hget ⊢
      split at hget
      · next hkey =>
        cases hget
        rw [if_pos hkey]
        exact ⟨hkey.symm, rfl⟩
      · next hkey =>
        rw [if_neg hkey]
        exact h.owned key pending hget
    · exact hstored
    · exact h.reported

theorem Bookkept.complete (h : Bookkept p) (key : RequestKey)
    (completion : Completion) : Bookkept (p.complete key completion) := by
  unfold PerformanceData.complete
  split
  · next pending hrequest =>
    have htaken : Bookkept { p with requests := p.requests.erase key } := by
      constructor
      · intro other
        rw [OrderedMap.get?_erase]
        split
        · exact Or.inl rfl
        · exact h.apart other
      · intro other waiting hget
        rw [OrderedMap.get?_erase] at hget
        split at hget
        · cases hget
        · exact h.owned other waiting hget
      · exact h.stored
      · exact h.reported
    exact htaken.join pending (h.blobs_pending hrequest) completion
  · next hrequest =>
    constructor
    · intro other
      rw [OrderedMap.get?_insert]
      split
      · next hkey =>
        rw [hkey]
        exact Or.inl hrequest
      · exact h.apart other
    · exact h.owned
    · exact h.stored
    · exact h.reported

theorem Bookkept.sampled (h : Bookkept p) {name : ThreadName}
    (hname : p.blobs name ≠ []) (hsampled : Sampled name p q) :
    Bookkept q := by
  constructor
  · rw [hsampled.requests, hsampled.parked]
    exact h.apart
  · rw [hsampled.requests, hsampled.owners]
    exact h.owned
  · intro key t howner
    rw [hsampled.owners] at howner
    rw [hsampled.blobs]
    exact h.stored key t howner
  · intro t ht
    rw [hsampled.blobs]
    rcases hsampled.keys t ht with rfl | ht
    · exact hname
    · exact h.reported t ht

theorem Bookkept.step (h : Bookkept p) {name : ThreadName} {d : Data}
    {record : Record} (hname : p.blobs name ≠ [])
    (htells : Tells name d p record q) : Bookkept q := by
  cases htells with
  | request htrace =>
      exact h.enqueue hname _ _
  | completion hrecord =>
      exact h.complete _ _
  | other hrequest hrecord hsampled =>
      exact h.sampled hname hsampled

theorem Bookkept.record (h : Bookkept p) {name : ThreadName} {d : Data}
    {record : Record} (hname : p.blobs name ≠ [])
    (hcounts : Counts name d p record q) :
    Bookkept q ∧ q.blobs name ≠ [] := by
  have htells := hcounts.tells
  refine ⟨h.step hname htells, ?_⟩
  rw [htells.blobs_eq]
  exact hname

theorem Bookkept.apply (h : Bookkept p) (blob : Blob) :
    Bookkept (p.apply blob).state := by
  have hcases := apply_cases (p := p)
    (motive := fun _ q => Bookkept q ∧ q.blobs blob.thread ≠ [])
    (fun _ => ⟨h.keep blob, p.blobs_keep_ne_nil blob⟩)
    (fun _ _ _ _ hcounts hbefore => hbefore.1.record hbefore.2 hcounts)
  rcases hcases with ⟨_, hstate⟩ | ⟨_, _, hafter⟩
  · rw [hstate]
    exact h
  · exact hafter.1

theorem Bookkept.receive (h : Bookkept p) (arrivals : List Blob) :
    Bookkept (p.receive arrivals) := by
  induction arrivals generalizing p with
  | nil =>
      exact h
  | cons blob rest ih =>
      exact ih (h.apply blob)

theorem Reached.bookkept (h : Reached p) : Bookkept p := by
  cases h with
  | between arrivals =>
      exact bookkept_empty.receive arrivals
  | @within arrivals blob d before after hblob hrecords hcheck =>
      have hkept := bookkept_empty.receive arrivals
      have hbefore : checkAll d ((PerformanceData.receive ∅ arrivals).keep
          blob).counters.length before = .ok () := by
        rw [hrecords, checkAll_eq_ok_iff, List.map_append,
          fits_append] at hcheck
        exact checkAll_eq_ok_iff.mpr hcheck.1
      rcases @forEach_of_counts blob.thread d
          (fun _ q => Bookkept q ∧ q.blobs blob.thread ≠ [])
          (fun _ _ _ _ hcounts hstate => hstate.1.record hstate.2 hcounts)
          before [] _ hbefore ⟨hkept.keep blob, blobs_keep_ne_nil _ blob⟩
        with ⟨q, hdone, hq⟩
      rw [hdone]
      exact hq.1

end Bookkept

/-! ## Headers of adopted completions -/

theorem owner_of_isOwnedBy {p : PerformanceData} {t : ThreadName} {r : Record}
    (h : p.isOwnedBy t r = true) : ∃ key, p.owners.get? key = some t := by
  unfold isOwnedBy at h
  split at h
  · next key _ =>
    exact ⟨key, of_decide_eq_true h⟩
  · cases h

/-- The blobs of other threads can be read for completions of a thread's
requests. If there are any, the thread has a first blob of its own, after whose
header that of the blob with these completions is made. -/
def Templated (p : PerformanceData) (t : ThreadName) : Prop :=
  ∃ others, (p.blobsOfOthers t).mapM (p.adoptedFrom t) = .ok others ∧
    (others.flatten ≠ [] →
      ∃ first rest own, p.blobs t = first :: rest ∧
        p.reshuffled t = .ok (own ++ [Data.toBlob ⟨others.flatten, []⟩
          (adoptedHeader first.header t others.flatten)]))

theorem templated_receive (arrivals : List Blob) (t : ThreadName) :
    (receive ∅ arrivals).Templated t := by
  refine ⟨_, mapM_adoptedFrom t, ?_⟩
  intro hsome
  have hbooks := Reached.bookkept (.between arrivals)
  have hblobs : (receive ∅ arrivals).blobs t ≠ [] := by
    rcases List.exists_mem_of_ne_nil _ hsome with ⟨r, hr⟩
    rcases List.mem_flatten.mp hr with ⟨records, hrecords, hmem⟩
    rcases List.mem_map.mp hrecords with ⟨report, _, rfl⟩
    rcases owner_of_isOwnedBy (List.mem_filter.mp hmem).2 with ⟨key, howner⟩
    exact hbooks.stored key t howner
  have hdecoded : ∀ report ∈
      (accepted ∅ arrivals).filter fun report => report.thread = t,
      Data.ofBlob report.blob = .ok report.data := by
    intro report hreport
    exact ofBlob_of_mem_accepted (List.mem_filter.mp hreport).1
  rcases (receive ∅ arrivals).ownParts_eq t hdecoded with ⟨own, _, hown, _⟩
  rw [← blobs_receive] at hown
  rcases List.exists_cons_of_ne_nil hblobs with ⟨first, rest, hfirst⟩
  refine ⟨first, rest, own.filterMap id, hfirst, ?_⟩
  rw [reshuffled_of_cons hfirst hown (mapM_adoptedFrom t), adoptedBlobs,
    if_neg (by simpa using hsome)]

/-! ## Books -/

/-- A request and a completion of one key meet: whichever comes first waits, and
whichever comes second is joined with it. -/
structure MeetAtOnce (p : PerformanceData) : Prop where
  request_waits : ∀ name trace r, p.parked.get? r.key = none →
    ∃ number, (p.enqueue name trace r).callSites[number]? = some trace ∧
      (p.enqueue name trace r).requests.get? r.key = some ⟨name, r, number⟩
  request_joined : ∀ name trace r completion,
    p.parked.get? r.key = some completion →
      ∃ number, (p.enqueue name trace r).callSites[number]? = some trace ∧
        Joined p (p.enqueue name trace r) ⟨name, r, number⟩ completion
  completion_waits : ∀ key completion, p.requests.get? key = none →
    (p.complete key completion).parked.get? key = some completion
  completion_joined : ∀ key completion pending,
    p.requests.get? key = some pending →
      Joined p (p.complete key completion) pending completion

theorem Bookkept.meetAtOnce {p : PerformanceData} (h : Bookkept p) :
    MeetAtOnce p := by
  constructor
  · intro name trace r hnone
    rcases p.enqueue_eq name trace r with ⟨sites, number, _, hsite, heq⟩
    rw [hnone] at heq
    rw [heq]
    refine ⟨number, hsite, ?_⟩
    rw [OrderedMap.get?_insert, if_pos rfl]
  · intro name trace r completion hparked
    exact h.joined_enqueue hparked
  · intro key completion hnone
    unfold PerformanceData.complete
    rw [hnone]
    simp only
    rw [OrderedMap.get?_insert, if_pos rfl]
  · intro key completion pending hrequest
    exact h.joined_complete hrequest completion

/-- However keys are used, and whichever blobs are refused, the books are kept:
no key is that of a request and of a completion that both wait, the two are
joined at once, and the threads of all requests have blobs. So there is always
a header after which that of adopted completions is made. -/
theorem books_are_kept :
    (∀ p, Reached p → Bookkept p ∧ MeetAtOnce p ∧
      ∀ key pending, p.requests.get? key = some pending →
        p.blobs pending.thread ≠ []) ∧
    ∀ arrivals t, (receive ∅ arrivals).Templated t := by
  refine ⟨?_, templated_receive⟩
  intro p hreached
  have h := hreached.bookkept
  exact ⟨h, h.meetAtOnce, fun _ _ hrequest => h.blobs_pending hrequest⟩

/-- Two threads make a request of one key, and the first one reports two
completions of it. The first of them meets the request of the second thread but
is of the other kind, so the second of them waits. -/
def requestedTwice : List Blob :=
  let header (pid : UInt64) : BlobHeader :=
    ⟨0, 0, collectorId, .ofName ⟨"a", pid, none, none⟩, ⟨0, 1⟩⟩
  [Data.toBlob ⟨[.request ⟨.executeKernel, 10, 1, 2, 3, 0⟩], [7, 0]⟩ (header 1),
    Data.toBlob ⟨[.request ⟨.memoryCopy, 11, 1, 2, 3, 0⟩], [7, 0]⟩ (header 2),
    Data.toBlob ⟨[.completedExec ⟨1, 2, 3, 20, 30, "f", ⟨1, 1, 1⟩, ⟨8, 8, 1⟩,
      .none, 16, 0, 0, 0⟩, .completedXfer ⟨1, 2, 3, 20, 30, 64, .hostToDevice,
      .pageable, .device, false⟩], []⟩ (header 1)]

theorem books_are_kept_requested_twice :
    (receive ∅ requestedTwice).pendingRequests = 0 ∧
    (∃ number, Joined (receive ∅ requestedTwice)
      ((receive ∅ requestedTwice).enqueue ⟨"a", 1, none, none⟩ [8]
        ⟨.memoryCopy, 40, 1, 2, 3, 0⟩)
      ⟨⟨"a", 1, none, none⟩, ⟨.memoryCopy, 40, 1, 2, 3, 0⟩, number⟩
      (.xfer ⟨1, 2, 3, 20, 30, 64, .hostToDevice, .pageable, .device,
        false⟩)) ∧
    ∃ first rest,
      (receive ∅ requestedTwice).blobs ⟨"a", 2, none, none⟩ = first :: rest ∧
      ∃ own adopted, List.length adopted = 2 ∧
        (receive ∅ requestedTwice).reshuffled ⟨"a", 2, none, none⟩ =
          .ok (own ++ [Data.toBlob ⟨adopted, []⟩ (adoptedHeader first.header
            ⟨"a", 2, none, none⟩ adopted)]) := by
  rcases books_are_kept with ⟨hreached, htemplated⟩
  have hparked : (receive ∅ requestedTwice).parked.get? (1, 2, 3) =
      some (.xfer ⟨1, 2, 3, 20, 30, 64, .hostToDevice, .pageable, .device,
        false⟩) := by
    decide +kernel
  have hadopted : (((receive ∅ requestedTwice).blobsOfOthers
      ⟨"a", 2, none, none⟩).mapM ((receive ∅ requestedTwice).adoptedFrom
        ⟨"a", 2, none, none⟩)).map (fun others => others.flatten.length) =
          .ok 2 := by
    decide +kernel
  refine ⟨by decide +kernel, ?_, ?_⟩
  · have hmeet := (hreached _ (.between requestedTwice)).2.1
    rcases hmeet.request_joined ⟨"a", 1, none, none⟩ [8]
      ⟨.memoryCopy, 40, 1, 2, 3, 0⟩ _ hparked with ⟨number, _, hjoined⟩
    exact ⟨number, hjoined⟩
  · rcases htemplated requestedTwice ⟨"a", 2, none, none⟩ with
      ⟨others, hothers, htemplate⟩
    rw [hothers] at hadopted
    have hlength : others.flatten.length = 2 := Except.ok.inj hadopted
    have hsome : others.flatten ≠ [] := by
      intro hnone
      rw [hnone] at hlength
      cases hlength
    rcases htemplate hsome with ⟨first, rest, own, hfirst, hshown⟩
    exact ⟨first, rest, hfirst, own, others.flatten, hlength, hshown⟩

end PerformanceData
end Cuda
end CudaProfile
