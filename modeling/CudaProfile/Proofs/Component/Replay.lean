import CudaProfile.Proofs.Component.Collecting
import CudaProfile.Proofs.Cuda.Acceptance
import CudaProfile.Proofs.Cuda.Pairing
/-!
# Replaying what was sent

The blobs that are sent when data is asked for come thread after thread, with
the completions where they belong. Data that starts afresh and takes all of them
stores the same activities as the data they came from. Whether it takes them
depends on the samples alone: they are sent in the order of threads, and so may
come before the sampling configuration that they arrived after.
-/

namespace CudaProfile

namespace Cuda

open Std Lexicographic

/-! ## Samples and counters -/

theorem fits_filter_fixed {known : List CounterDescription}
    {entries : List (Record × List Address)} :
    Fits known (entries.filter fun e => e.1.completionKey? = none) ↔
      Fits known entries := by
  induction entries generalizing known with
  | nil =>
      rfl
  | cons e rest ih =>
      cases hkey : e.1.completionKey? with
      | none =>
          rw [List.filter_cons_of_pos (by simp [hkey]), fits_cons, fits_cons,
            ih]
      | some key =>
          have hinert : e.1.counters? = none ∧
              ¬Malformed e.2 known.length e.1 := by
            rcases e with ⟨r, pool⟩
            cases r with
            | completedExec c =>
                exact ⟨rfl, fun h => by cases h⟩
            | completedXfer c =>
                exact ⟨rfl, fun h => by cases h⟩
            | _ =>
                cases hkey
          rw [List.filter_cons_of_neg (by simp [hkey]), fits_cons, ih,
            configured_of_counters?_eq_none known hinert.1]
          exact (and_iff_right hinert.2).symm

theorem flatMap_fixed {α : Type} (data : α → Data) (items : List α) :
    (items.flatMap fun a => (data a).fixed) =
      (items.flatMap fun a => (data a).pooled).filter fun e =>
        e.1.completionKey? = none := by
  rw [List.filter_flatMap]
  apply List.flatMap_congr
  intro a _
  unfold Data.fixed Data.pooled
  rw [List.filter_map]
  rfl

theorem map_fst_pooled (d : Data) : d.pooled.map Prod.fst = d.records := by
  unfold Data.pooled
  rw [List.map_map]
  exact List.map_id _

namespace PerformanceData

def Accepts (p : PerformanceData) (blobs : List Blob) : Prop :=
  (Outcome.forEach apply p blobs).refusal = none

instance (p : PerformanceData) (blobs : List Blob) :
    Decidable (p.Accepts blobs) :=
  inferInstanceAs (Decidable (_ = none))

theorem accepts_cons {p : PerformanceData} {blob : Blob} {rest : List Blob} :
    p.Accepts (blob :: rest) ↔
      (p.apply blob).refusal = none ∧ (p.apply blob).state.Accepts rest := by
  unfold Accepts
  by_cases hfirst : (p.apply blob).refusal = none
  · have hdone := Outcome.eq_done_iff.mpr ⟨rfl, hfirst⟩
    rw [Outcome.forEach_cons_of_done hdone]
    exact (and_iff_right hfirst).symm
  · rw [Outcome.forEach_cons_of_refused hfirst]
    exact iff_of_false hfirst fun h => hfirst h.1

theorem counters_apply {p : PerformanceData} {blob : Blob} {d : Data}
    (hdata : Data.ofBlob blob = .ok d) (hfits : Fits p.counters d.pooled) :
    (p.apply blob).state.counters = configured p.counters d.records := by
  rcases apply_of_fits hdata hfits with ⟨hrefusal, happly⟩
  rw [← happly] at hrefusal ⊢
  rw [counters_forEach (Outcome.eq_done_iff.mpr ⟨rfl, hrefusal⟩), counters_keep]

theorem accepts_iff_fits {p : PerformanceData} {reports : List Report}
    (hdata : ∀ report ∈ reports, Data.ofBlob report.blob = .ok report.data) :
    p.Accepts (reports.map Report.blob) ↔
      Fits p.counters (reports.flatMap fun report => report.data.pooled) := by
  induction reports generalizing p with
  | nil =>
      exact iff_of_true rfl (fits_nil p.counters)
  | cons report rest ih =>
      rcases List.forall_mem_cons.mp hdata with ⟨hfirst, hrest⟩
      rw [List.map_cons, accepts_cons, List.flatMap_cons, fits_append,
        refusal_apply_eq_none_iff, ih hrest, map_fst_pooled]
      constructor
      · intro h
        rcases h with ⟨⟨d, hd, hfits⟩, hmore⟩
        cases hfirst.symm.trans hd
        rw [counters_apply hfirst hfits] at hmore
        exact ⟨hfits, hmore⟩
      · intro h
        rw [counters_apply hfirst h.1]
        exact ⟨⟨report.data, hfirst, h.1⟩, h.2⟩

theorem accepted_of_accepts {p : PerformanceData} {reports : List Report}
    (hdata : ∀ report ∈ reports, Data.ofBlob report.blob = .ok report.data)
    (h : p.Accepts (reports.map Report.blob)) :
    p.accepted (reports.map Report.blob) = reports := by
  induction reports generalizing p with
  | nil =>
      rfl
  | cons report rest ih =>
      rcases List.forall_mem_cons.mp hdata with ⟨hfirst, hrest⟩
      rw [List.map_cons, accepts_cons] at h
      rw [List.map_cons, accepted_cons_of_accepted hfirst h.1, ih hrest h.2]

theorem fits_accepted (p : PerformanceData) (arrivals : List Blob) :
    Fits p.counters
      ((p.accepted arrivals).flatMap fun report => report.data.pooled) := by
  induction arrivals generalizing p with
  | nil =>
      exact fits_nil p.counters
  | cons blob rest ih =>
      have hrest := ih (p.apply blob).state
      by_cases haccepted : (p.apply blob).refusal = none
      · rcases refusal_apply_eq_none_iff.mp haccepted with ⟨d, hdata, hfits⟩
        rw [counters_apply hdata hfits] at hrest
        rw [accepted_cons_of_accepted hdata haccepted, List.flatMap_cons,
          fits_append, map_fst_pooled]
        exact ⟨hfits, hrest⟩
      · rcases apply_of_refused haccepted with ⟨error, happly⟩
        rw [happly] at hrest
        rw [accepted_cons_of_refused haccepted]
        exact hrest

/-! ## What is sent -/

/-- The blobs that are sent of data when it is asked for, thread after thread. -/
def sentBlobs (p : PerformanceData) : List Blob × Option Error :=
  DataAggregator.blobsOf p p.threads.keys

theorem exists_reports {blobs : List Blob} {ds : List Data}
    (h : blobs.mapM Data.ofBlob = .ok ds) :
    ∃ reports : List Report, reports.map Report.blob = blobs ∧
      reports.map Report.data = ds ∧
        ∀ report ∈ reports, Data.ofBlob report.blob = .ok report.data := by
  induction blobs generalizing ds with
  | nil =>
      cases h
      exact ⟨[], rfl, rfl, fun _ hnone => by cases hnone⟩
  | cons blob rest ih =>
      rw [List.mapM_cons] at h
      rcases bind_eq_ok_iff.mp h with ⟨d, hd, hmore⟩
      rcases bind_eq_ok_iff.mp hmore with ⟨others, hothers, hvalues⟩
      cases hvalues
      rcases ih hothers with ⟨reports, hblobs, hdata, hall⟩
      refine ⟨⟨blob, d⟩ :: reports, ?_, ?_, ?_⟩
      · rw [List.map_cons, hblobs]
      · rw [List.map_cons, hdata]
      · exact List.forall_mem_cons.mpr ⟨hd, hall⟩

theorem filterMap_askedBy (t : ThreadName) (d : Data) :
    d.records.filterMap (askedBy t d) =
      d.fixed.filterMap fun e => askedBy t ⟨[], e.2⟩ e.1 := by
  unfold Data.fixed
  rw [List.filterMap_map, List.filterMap_filter]
  apply List.filterMap_congr
  intro r _
  cases r with
  | completedExec c =>
      rfl
  | completedXfer c =>
      rfl
  | _ =>
      rfl

section Sent

variable {arrivals : List Blob}

/-- What is sent of a thread is of the thread, also the blob with the
completions that others reported: its header is made from the name. -/
theorem thread_of_mem_reshuffled {t : ThreadName}
    (ht : t ∈ (receive ∅ arrivals).threads.keys) {blobs : List Blob}
    (hblobs : (receive ∅ arrivals).reshuffled t = .ok blobs) {blob : Blob}
    (hblob : blob ∈ blobs) : blob.thread = t := by
  rcases reshuffled_ok ht with ⟨first, own, _, hown, _, _, hshown⟩
  rw [hshown] at hblobs
  cases hblobs
  rcases List.mem_append.mp hblob with hblob | hblob
  · rcases List.mem_filterMap.mp hblob with ⟨part, hpart, heq⟩
    change part = some blob at heq
    rw [heq] at hpart
    rcases exists_of_mapM_eq_ok hown hpart with ⟨source, hsource, hsome⟩
    rw [blobs_receive] at hsource
    rcases List.mem_map.mp hsource with ⟨report, hreport, rfl⟩
    unfold Blob.thread
    rw [header_of_ownPart hsome]
    exact of_decide_eq_true (List.mem_filter.mp hreport).2
  · rcases ((reported_receive arrivals).keys t).mp ht with
      ⟨report, _, hthread⟩
    unfold adoptedBlobs at hblob
    split at hblob
    · cases hblob
    · rw [List.mem_singleton.mp hblob, ← hthread]
      exact ThreadRecord.name_ofName report.blob.header.thread

theorem asked_of_thread {reports : List Report} {t : ThreadName}
    (h : ∀ report ∈ reports, report.thread = t) :
    asked reports = (reports.flatMap fun report => report.data.fixed).filterMap
      fun e => askedBy t ⟨[], e.2⟩ e.1 := by
  unfold asked
  rw [List.filterMap_flatMap]
  apply List.flatMap_congr
  intro report hreport
  rw [filterMap_askedBy, h report hreport]

def inThreadOrder (arrivals : List Blob) : List Report :=
  (receive ∅ arrivals).threads.keys.flatMap fun t =>
    (accepted ∅ arrivals).filter fun report => report.thread = t

theorem perm_inThreadOrder :
    (inThreadOrder arrivals).Perm (accepted ∅ arrivals) :=
  perm_flatMap_filter_of_mem Report.thread
    (receive ∅ arrivals).threads.nodup_keys (fun _ => mem_keys_of_accepted)

structure Shown (arrivals : List Blob) (t : ThreadName) (shown : List Report) :
    Prop where
  blobs : (receive ∅ arrivals).reshuffled t = .ok (shown.map Report.blob)
  readable : ∀ report ∈ shown, Data.ofBlob report.blob = .ok report.data
  thread : ∀ report ∈ shown, report.thread = t
  fixed : (shown.flatMap fun report => report.data.fixed) =
    ((accepted ∅ arrivals).filter fun report => report.thread = t).flatMap
      fun report => report.data.fixed
  asked : asked shown =
    asked ((accepted ∅ arrivals).filter fun report => report.thread = t)
  records : (shown.flatMap fun report => report.data.records).Perm
    (((told (accepted ∅ arrivals)).filter fun e =>
      destination (accepted ∅ arrivals) e = t).map Prod.snd)

theorem exists_shown (h : (receive ∅ arrivals).InMemory) {t : ThreadName}
    (ht : t ∈ (receive ∅ arrivals).threads.keys) :
    ∃ shown, Shown arrivals t shown := by
  rcases reshuffled_holds h ht with ⟨blobs, ds, hblobs, hds, hfixed, hrecords⟩
  rcases exists_reports hds with ⟨shown, rfl, rfl, hreadable⟩
  rw [List.flatMap_map] at hfixed hrecords
  have hthread : ∀ report ∈ shown, report.thread = t := by
    intro report hreport
    exact thread_of_mem_reshuffled ht hblobs (List.mem_map_of_mem hreport)
  have hown : ∀ report ∈
      (accepted ∅ arrivals).filter fun report => report.thread = t,
      report.thread = t :=
    fun _ hreport => of_decide_eq_true (List.mem_filter.mp hreport).2
  refine ⟨shown, hblobs, hreadable, hthread, hfixed, ?_, hrecords⟩
  rw [asked_of_thread hthread, hfixed, asked_of_thread hown]

structure Sent (arrivals : List Blob) (sent : List Report) : Prop where
  parts : ∃ shown : ThreadName → List Report,
    (∀ t ∈ (receive ∅ arrivals).threads.keys, Shown arrivals t (shown t)) ∧
      sent = (receive ∅ arrivals).threads.keys.flatMap shown
  blobs : (receive ∅ arrivals).sentBlobs = (sent.map Report.blob, none)
  readable : ∀ report ∈ sent, Data.ofBlob report.blob = .ok report.data
  fixed : (sent.flatMap fun report => report.data.fixed) =
    (inThreadOrder arrivals).flatMap fun report => report.data.fixed
  asked : (asked sent).Perm (asked (accepted ∅ arrivals))
  completed : (completed sent).Perm (completed (accepted ∅ arrivals))

theorem exists_sent (h : (receive ∅ arrivals).InMemory) :
    ∃ sent, Sent arrivals sent := by
  have hshown : ∀ t ∈ (receive ∅ arrivals).threads.keys,
      ∃ shown, Shown arrivals t shown := fun t ht => exists_shown h ht
  choose! shown hshown using hshown
  have hblobs := DataAggregator.blobsOf_eq fun t ht => (hshown t ht).blobs
  refine ⟨(receive ∅ arrivals).threads.keys.flatMap shown,
    ⟨shown, hshown, rfl⟩, ?_, ?_, ?_, ?_, ?_⟩
  · unfold sentBlobs
    rw [hblobs, List.map_flatMap]
  · intro report hreport
    rcases List.mem_flatMap.mp hreport with ⟨t, ht, hmem⟩
    exact (hshown t ht).readable report hmem
  · unfold inThreadOrder
    rw [List.flatMap_assoc, List.flatMap_assoc]
    exact List.flatMap_congr fun t ht => (hshown t ht).fixed
  · have hasked : asked ((receive ∅ arrivals).threads.keys.flatMap shown) =
        asked (inThreadOrder arrivals) := by
      unfold inThreadOrder asked
      rw [List.flatMap_assoc, List.flatMap_assoc]
      exact List.flatMap_congr fun t ht => (hshown t ht).asked
    rw [hasked]
    exact perm_inThreadOrder.flatMap_right _
  · -- Completions move between threads, so records agree only up to order.
    have hparted := perm_flatMap_filter_of_mem
      (destination (accepted ∅ arrivals))
      (receive ∅ arrivals).threads.nodup_keys (fun _ => destination_mem_keys)
    have hrecords : (((receive ∅ arrivals).threads.keys.flatMap shown).flatMap
        fun report => report.data.records).Perm
          ((accepted ∅ arrivals).flatMap fun report => report.data.records) := by
      rw [← map_snd_told (accepted ∅ arrivals), List.flatMap_assoc]
      refine (List.Perm.flatMap_left _ fun t ht =>
        (hshown t ht).records).trans ?_
      rw [← List.map_flatMap]
      exact hparted.map Prod.snd
    rw [completed_eq, completed_eq]
    exact hrecords.filterMap _

end Sent

/-! ## Replays -/

theorem Matched.agree {requests requests' : List Asked}
    {completions completions' : List (RequestKey × Completion)}
    {p p' : PerformanceData} (h : Matched requests completions p)
    (h' : Matched requests' completions' p')
    (hnodup : (requests.map Asked.key).Nodup)
    (hrequests : requests'.Perm requests)
    (hcompletions : completions'.Perm completions) :
    (∀ t, (p'.activities t).Perm (p.activities t)) ∧
      p'.pendingRequests = p.pendingRequests := by
  constructor
  · intro t
    have hpairs := (pairs_perm hrequests hcompletions).filterMap (activityOf t)
    exact ((h'.stored t).trans hpairs).trans (h.stored t).symm
  · have hnodup' := (hrequests.map Asked.key).nodup_iff.mpr hnodup
    rw [h'.pendingRequests_eq hnodup', h.pendingRequests_eq hnodup]
    exact (uncompleted_perm hrequests hcompletions).length_eq

/-- What is sent is accepted blob by blob exactly if all records that are no
completions fit, with the counters that are configured before them in the order
of threads. They do if the blobs also arrived in this order. -/
theorem replay_accepted_iff (arrivals : List Blob)
    (h : (receive ∅ arrivals).InMemory) :
    ∃ blobs, (receive ∅ arrivals).sentBlobs = (blobs, none) ∧
      (Accepts ∅ blobs ↔ Fits [] ((inThreadOrder arrivals).flatMap
        fun report => report.data.fixed)) ∧
      (inThreadOrder arrivals = accepted ∅ arrivals → Accepts ∅ blobs) := by
  rcases exists_sent h with ⟨sent, hsent⟩
  have haccepts : Accepts ∅ (sent.map Report.blob) ↔
      Fits [] ((inThreadOrder arrivals).flatMap
        fun report => report.data.fixed) := by
    rw [← hsent.fixed, flatMap_fixed, fits_filter_fixed]
    exact accepts_iff_fits hsent.readable
  refine ⟨_, hsent.blobs, haccepts, ?_⟩
  intro horder
  rw [haccepts, horder, flatMap_fixed, fits_filter_fixed]
  exact fits_accepted ∅ arrivals

/-- The counters come from one thread, and a sample of them from a thread
before it. -/
def lateCounters : List Blob :=
  let header (tid : Int64) : BlobHeader :=
    ⟨0, 1, collectorId, ⟨0, "a", 1, true, tid, -1⟩, ⟨0, 1⟩⟩
  [Data.toBlob ⟨[.samplingConfig ⟨10, [⟨"inst_executed", .count, 0⟩]⟩], []⟩
      (header 2),
    Data.toBlob ⟨[.periodicSamples ⟨20, [5]⟩], []⟩ (header 1)]

theorem replay_accepted_iff_late_counters :
    (receive ∅ lateCounters).InMemory ∧
      ¬Fits [] ((inThreadOrder lateCounters).flatMap
        fun report => report.data.fixed) := by
  have hmemory : (receive ∅ lateCounters).InMemory := by
    unfold InMemory
    decide +kernel
  refine ⟨hmemory, ?_⟩
  rcases replay_accepted_iff lateCounters hmemory with
    ⟨blobs, hblobs, haccepts, _⟩
  have hsent : (receive ∅ lateCounters).sentBlobs.1 = blobs :=
    congrArg Prod.fst hblobs
  rw [← haccepts, ← hsent]
  decide +kernel

/-- Blobs that were all accepted may be refused in the order of threads. -/
theorem replay_refuses_late_counters :
    Accepts ∅ lateCounters ∧
      (receive ∅ lateCounters).sentBlobs.2 = none ∧
      ¬Accepts ∅ (receive ∅ lateCounters).sentBlobs.1 := by
  decide +kernel

/-- If what is sent is accepted blob by blob, then the same activities are
stored for every thread, and as many requests wait. -/
theorem replay_attributes_activities (arrivals : List Blob)
    (h : (receive ∅ arrivals).InMemory)
    (hrequests : ((asked (accepted ∅ arrivals)).map Asked.key).Nodup)
    (hcompletions : ((completed (accepted ∅ arrivals)).map Prod.fst).Nodup) :
    ∃ blobs, (receive ∅ arrivals).sentBlobs = (blobs, none) ∧
      (Accepts ∅ blobs →
        (∀ t, ((receive ∅ blobs).activities t).Perm
          ((receive ∅ arrivals).activities t)) ∧
        (receive ∅ blobs).pendingRequests =
          (receive ∅ arrivals).pendingRequests) := by
  rcases exists_sent h with ⟨sent, hsent⟩
  refine ⟨_, hsent.blobs, ?_⟩
  intro haccepts
  have hreports := accepted_of_accepts hsent.readable haccepts
  have hmatched := matched_receive arrivals hrequests hcompletions
  have hreplayed := matched_receive (sent.map Report.blob)
    (by
      rw [hreports]
      exact (hsent.asked.map _).nodup_iff.mpr hrequests)
    (by
      rw [hreports]
      exact (hsent.completed.map _).nodup_iff.mpr hcompletions)
  rw [hreports] at hreplayed
  exact hmatched.agree hreplayed hrequests hsent.asked hsent.completed

/-- A thread reports the completion of another one's copy before the request,
and afterwards a request of its own that is never completed. -/
def reportedElsewhere : List Blob :=
  let header (tid : Int64) : BlobHeader :=
    ⟨0, 1, collectorId, ⟨0, "a", 1, true, tid, -1⟩, ⟨0, 1⟩⟩
  [Data.toBlob ⟨[.completedXfer ⟨1, 2, 3, 20, 30, 64, .hostToDevice, .pageable,
      .device, false⟩, .request ⟨.executeKernel, 15, 1, 2, 4, 0⟩], [9, 0]⟩
      (header 1),
    Data.toBlob ⟨[.request ⟨.memoryCopy, 10, 1, 2, 3, 0⟩], [7, 8, 0]⟩
      (header 2)]

theorem replay_attributes_activities_reported_elsewhere :
    ∃ blobs, (receive ∅ reportedElsewhere).sentBlobs = (blobs, none) ∧
      blobs ≠ reportedElsewhere ∧ Accepts ∅ blobs ∧
      (∀ t, ((receive ∅ blobs).activities t).Perm
        ((receive ∅ reportedElsewhere).activities t)) ∧
      (receive ∅ blobs).pendingRequests = 1 := by
  have hmemory : (receive ∅ reportedElsewhere).InMemory := by
    unfold InMemory
    decide +kernel
  rcases replay_attributes_activities reportedElsewhere hmemory
      (by decide +kernel) (by decide +kernel) with ⟨blobs, hblobs, hreplay⟩
  have hsent : (receive ∅ reportedElsewhere).sentBlobs.1 = blobs :=
    congrArg Prod.fst hblobs
  have haccepts : Accepts ∅ blobs := by
    rw [← hsent]
    decide +kernel
  rcases hreplay haccepts with ⟨hactivities, hpending⟩
  refine ⟨blobs, hblobs, ?_, haccepts, hactivities, ?_⟩
  · rw [← hsent]
    decide +kernel
  · rw [hpending]
    decide +kernel

end PerformanceData
end Cuda
end CudaProfile
