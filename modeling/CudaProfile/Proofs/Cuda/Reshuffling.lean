import CudaProfile.Proofs.Cuda.Format
import CudaProfile.Proofs.Cuda.Run
/-!
# Blobs by owner conserve records

A thread gives away the completions of other threads' requests and gets those
of its own. Both decide by the owner of a key, so that every record has one
destination: what one thread gives away another one gets, and the other one has
reported, so its blobs are shown as well.
-/

namespace CudaProfile
namespace Cuda

open Std Lexicographic

/-! ## Where records belong -/

def told (reports : List Report) : List (ThreadName × Record) :=
  reports.flatMap fun report =>
    report.data.records.map fun record => (report.thread, record)

/-- A completion belongs to the thread that made the latest request of its key,
if there is one, and every other record to the thread that reported it. -/
def destination (reports : List Report) (e : ThreadName × Record) :
    ThreadName :=
  match e.2.completionKey? with
  | some key => (lastRequester reports key).getD e.1
  | none => e.1

theorem map_snd_told (reports : List Report) :
    (told reports).map Prod.snd =
      reports.flatMap fun report => report.data.records := by
  unfold told
  rw [List.map_flatMap]
  apply List.flatMap_congr
  intro report _
  rw [List.map_map]
  exact List.map_id _

theorem filter_told (some all : List Report) (t : ThreadName) :
    ((told some).filter fun e => destination all e = t).map Prod.snd =
      some.flatMap fun report => report.data.records.filter fun r =>
        destination all (report.thread, r) = t := by
  unfold told
  rw [List.filter_flatMap, List.map_flatMap]
  apply List.flatMap_congr
  intro report _
  rw [List.filter_map, List.map_map]
  exact List.map_id _

def Data.fixed (d : Data) : List (Record × List Address) :=
  (d.records.filter fun r => r.completionKey? = none).map fun r =>
    (r, d.stackTraces)

def withRecords (ds : List Data) : List Data :=
  ds.filter fun d => !d.records.isEmpty

theorem flatMap_withRecords {β : Type} {f : Data → List β}
    (hf : ∀ d, d.records = [] → f d = []) (ds : List Data) :
    (withRecords ds).flatMap f = ds.flatMap f := by
  apply flatMap_filter
  intro d hd
  apply hf
  simpa using hd

theorem pcs_eq (d : Data) :
    d.pcs = d.fixed.flatMap fun e => Data.pcsOf ⟨[], e.2⟩ e.1 := by
  unfold Data.pcs Data.fixed
  rw [List.flatMap_map, ← flatMap_filter]
  · rfl
  · intro r hr
    cases r with
    | completedExec e =>
        rfl
    | completedXfer x =>
        rfl
    | _ =>
        cases hr

namespace PerformanceData

section Owners

variable {reports : List Report} {p : PerformanceData}

theorem isForeignTo_eq
    (howners : ∀ key, p.owners.get? key = lastRequester reports key)
    (t : ThreadName) (r : Record) :
    p.isForeignTo t r = decide (destination reports (t, r) ≠ t) := by
  rw [Bool.eq_iff_iff, decide_eq_true_iff]
  unfold isForeignTo destination
  cases r.completionKey? with
  | none =>
      simp
  | some key =>
      simp only [howners]
      cases lastRequester reports key with
      | none =>
          simp
      | some owner =>
          simp

theorem isOwnedBy_eq
    (howners : ∀ key, p.owners.get? key = lastRequester reports key)
    {t u : ThreadName} (hne : u ≠ t) (r : Record) :
    p.isOwnedBy t r = decide (destination reports (u, r) = t) := by
  rw [Bool.eq_iff_iff, decide_eq_true_iff]
  unfold isOwnedBy destination
  cases r.completionKey? with
  | none =>
      simp [hne]
  | some key =>
      simp only [howners]
      cases lastRequester reports key with
      | none =>
          simp [hne]
      | some owner =>
          simp

end Owners

theorem isForeignTo_eq_false (p : PerformanceData) (t : ThreadName)
    {r : Record} (h : r.completionKey? = none) : p.isForeignTo t r = false := by
  unfold isForeignTo
  rw [h]

theorem completionKey?_of_isOwnedBy {p : PerformanceData} {t : ThreadName}
    {r : Record} (h : p.isOwnedBy t r = true) : r.completionKey? ≠ none := by
  intro hnone
  unfold isOwnedBy at h
  rw [hnone] at h
  cases h

/-! ## What a thread keeps -/

def kept (p : PerformanceData) (t : ThreadName) (d : Data) : Data :=
  ⟨d.records.filter fun r => !p.isForeignTo t r, d.stackTraces⟩

theorem fixed_kept (p : PerformanceData) (t : ThreadName) (d : Data) :
    (p.kept t d).fixed = d.fixed := by
  unfold Data.fixed kept
  rw [List.filter_filter]
  apply congrArg (List.map _)
  apply List.filter_congr
  intro r _
  by_cases h : r.completionKey? = none
  · simp [h, p.isForeignTo_eq_false t h]
  · simp [h]

theorem ownPart_eq (p : PerformanceData) (t : ThreadName) {blob : Blob}
    {d : Data} (h : Data.ofBlob blob = .ok d) :
    ∃ own ds, p.ownPart t blob = .ok own ∧
      own.toList.mapM Data.ofBlob = .ok ds ∧
        withRecords ds = withRecords [p.kept t d] := by
  have hpart : p.ownPart t blob =
      if (p.kept t d).records.length = d.records.length then .ok (some blob)
      else if (p.kept t d).records.isEmpty then .ok none
      else .ok (some ((p.kept t d).toBlob blob.header)) := by
    unfold ownPart
    rw [h]
    rfl
  rw [hpart]
  by_cases hlength : (p.kept t d).records.length = d.records.length
  · have hsame : p.kept t d = d := by
      have hrecords := List.filter_sublist.eq_of_length hlength
      unfold kept
      rw [hrecords]
    refine ⟨some blob, [d], if_pos hlength, ?_, ?_⟩
    · exact mapM_eq_ok (g := fun _ => d) fun a ha => by
        rw [List.mem_singleton.mp ha, h]
    · rw [hsame]
  · rw [if_neg hlength]
    by_cases hempty : (p.kept t d).records.isEmpty
    · refine ⟨none, [], if_pos hempty, rfl, ?_⟩
      simp [withRecords, hempty]
    · refine ⟨_, [p.kept t d], if_neg hempty, ?_, rfl⟩
      have hwritable := (ofBlob_eq_ok_iff.mp h).1.filter
        fun r => !p.isForeignTo t r
      exact mapM_eq_ok (g := fun _ => p.kept t d) fun a ha => by
        rw [List.mem_singleton.mp ha]
        exact ofBlob_toBlob hwritable blob.header

theorem header_of_ownPart {p : PerformanceData} {t : ThreadName}
    {blob own : Blob} (h : p.ownPart t blob = .ok (some own)) :
    own.header = blob.header := by
  rcases bind_eq_ok_iff.mp h with ⟨d, _, hown⟩
  simp only at hown
  split at hown
  · cases hown
    rfl
  · split at hown
    · cases hown
    · cases hown
      rfl

theorem ownParts_eq (p : PerformanceData) (t : ThreadName)
    {reports : List Report}
    (h : ∀ report ∈ reports, Data.ofBlob report.blob = .ok report.data) :
    ∃ own ds, (reports.map Report.blob).mapM (p.ownPart t) = .ok own ∧
      (own.filterMap id).mapM Data.ofBlob = .ok ds ∧
        withRecords ds =
          withRecords (reports.map fun report => p.kept t report.data) := by
  induction reports with
  | nil =>
      exact ⟨[], [], rfl, rfl, rfl⟩
  | cons report rest ih =>
      rcases List.forall_mem_cons.mp h with ⟨hreport, hrest⟩
      rcases p.ownPart_eq t hreport with ⟨first, ds, hfirst, hds, hwith⟩
      rcases ih hrest with ⟨own, more, hown, hmore, hothers⟩
      refine ⟨first :: own, ds ++ more, ?_, ?_, ?_⟩
      · rw [List.map_cons, List.mapM_cons, hfirst, hown]
        rfl
      · have hsplit : (first :: own).filterMap id =
            first.toList ++ own.filterMap id := by
          cases first with
          | none =>
              rfl
          | some blob =>
              rfl
        rw [hsplit]
        exact mapM_append_eq_ok hds hmore
      · unfold withRecords at hwith hothers ⊢
        rw [List.filter_append, hwith, hothers, ← List.filter_append]
        rfl

/-! ## What a thread gets -/

theorem blobsOfOthers_eq (p : PerformanceData) (t : ThreadName) :
    p.blobsOfOthers t =
      (p.threads.keys.filter fun u => u ≠ t).flatMap p.blobs := by
  unfold blobsOfOthers OrderedMap.keys
  rw [List.filter_map, List.flatMap_map]
  apply List.flatMap_congr
  intro entry hmem
  rcases entry with ⟨u, data⟩
  have hget := OrderedMap.get?_eq_some_iff.mpr (List.mem_filter.mp hmem).1
  unfold blobs thread
  rw [hget]
  rfl

theorem allBlobs_eq (p : PerformanceData) :
    p.allBlobs = p.threads.keys.flatMap p.blobs := by
  unfold allBlobs OrderedMap.keys OrderedMap.values
  rw [List.flatMap_map, List.flatMap_map]
  apply List.flatMap_congr
  intro entry hmem
  rcases entry with ⟨u, data⟩
  unfold blobs thread
  rw [OrderedMap.get?_eq_some_iff.mpr hmem]
  rfl

def othersReports (p : PerformanceData) (reports : List Report)
    (t : ThreadName) : List Report :=
  (p.threads.keys.filter fun u => u ≠ t).flatMap fun u =>
    reports.filter fun report => report.thread = u

def adopted (p : PerformanceData) (reports : List Report) (t : ThreadName) :
    List Record :=
  (p.othersReports reports t).flatMap fun report =>
    report.data.records.filter (p.isOwnedBy t)

/-- What a thread keeps of its own data and gets from others. -/
def share (p : PerformanceData) (reports : List Report) (t : ThreadName) :
    List Data :=
  ((reports.filter fun report => report.thread = t).map fun report =>
    p.kept t report.data) ++ [⟨p.adopted reports t, []⟩]

section Share

variable {p : PerformanceData} {reports : List Report}

theorem perm_othersReports
    (hkeys : ∀ t, t ∈ p.threads.keys ↔ ∃ report ∈ reports, report.thread = t)
    (t : ThreadName) :
    (p.othersReports reports t).Perm
      (reports.filter fun report => report.thread ≠ t) := by
  have hnodup := p.threads.nodup_keys.filter fun u => decide (u ≠ t)
  have hparted := perm_flatMap_filter Report.thread hnodup reports
  have hsame : (reports.filter fun report =>
      report.thread ∈ p.threads.keys.filter fun u => u ≠ t) =
        reports.filter fun report => report.thread ≠ t := by
    apply List.filter_congr
    intro report hreport
    have hmem := (hkeys report.thread).mpr ⟨report, hreport, rfl⟩
    simp [hmem]
  rw [hsame] at hparted
  exact hparted

theorem fixed_adopted (t : ThreadName) :
    Data.fixed ⟨p.adopted reports t, []⟩ = [] := by
  unfold Data.fixed
  rw [List.map_eq_nil_iff, List.filter_eq_nil_iff]
  intro r hr
  rcases List.mem_flatMap.mp hr with ⟨report, _, hmem⟩
  have hcompletion := completionKey?_of_isOwnedBy (List.mem_filter.mp hmem).2
  simp [hcompletion]

theorem fixed_share (t : ThreadName) :
    (p.share reports t).flatMap Data.fixed =
      (reports.filter fun report => report.thread = t).flatMap fun report =>
        report.data.fixed := by
  unfold share
  rw [List.flatMap_append, List.flatMap_map, List.flatMap_singleton,
    fixed_adopted, List.append_nil]
  apply List.flatMap_congr
  intro report _
  exact p.fixed_kept t report.data

/-- What a thread keeps and what it gets are all records that belong to it. -/
theorem perm_records_share
    (hkeys : ∀ t, t ∈ p.threads.keys ↔ ∃ report ∈ reports, report.thread = t)
    (howners : ∀ key, p.owners.get? key = lastRequester reports key)
    (t : ThreadName) :
    ((p.share reports t).flatMap Data.records).Perm
      (((told reports).filter fun e => destination reports e = t).map
        Prod.snd) := by
  let belonging (report : Report) : List Record :=
    report.data.records.filter fun r =>
      destination reports (report.thread, r) = t
  have hown : ((reports.filter fun report => report.thread = t).map
      fun report => p.kept t report.data).flatMap Data.records =
        (reports.filter fun report => report.thread = t).flatMap belonging := by
    rw [List.flatMap_map]
    apply List.flatMap_congr
    intro report hreport
    have hthread : report.thread = t :=
      of_decide_eq_true (List.mem_filter.mp hreport).2
    apply List.filter_congr
    intro r _
    rw [isForeignTo_eq howners, hthread]
    simp
  have hothers : (p.adopted reports t).Perm
      ((reports.filter fun report => report.thread ≠ t).flatMap belonging) := by
    refine ((perm_othersReports hkeys t).flatMap_right _).trans ?_
    apply List.Perm.of_eq
    apply List.flatMap_congr
    intro report hreport
    have hthread : report.thread ≠ t :=
      of_decide_eq_true (List.mem_filter.mp hreport).2
    apply List.filter_congr
    intro r _
    exact isOwnedBy_eq howners hthread r
  have hsplit : (reports.filter (fun report => report.thread = t) ++
      reports.filter (fun report => report.thread ≠ t)).Perm reports := by
    simpa using List.filter_append_perm
      (fun report : Report => decide (report.thread = t)) reports
  rw [filter_told]
  unfold share
  rw [List.flatMap_append, List.flatMap_singleton, hown]
  refine (hothers.append_left _).trans ?_
  rw [← List.flatMap_append]
  exact hsplit.flatMap_right _

end Share

/-! ## Sizes -/

/-- The payloads of all blobs are in memory at once, and the addresses of memory
have 64 bits. -/
def InMemory (p : PerformanceData) : Prop :=
  (p.allBlobs.map fun blob => blob.payload.length).sum < 2 ^ 64

def bytesOf (reports : List Report) : Nat :=
  (reports.map fun report => report.blob.payload.length).sum

theorem bytesOf_perm {reports reports' : List Report}
    (h : reports.Perm reports') : bytesOf reports = bytesOf reports' :=
  (h.map _).sum_nat

theorem bytesOf_filter_le (reports : List Report) (p : Report → Bool) :
    bytesOf (reports.filter p) ≤ bytesOf reports := by
  have hsplit := bytesOf_perm (List.filter_append_perm p reports)
  unfold bytesOf at hsplit ⊢
  rw [List.map_append, List.sum_append] at hsplit
  omega

theorem length_flatMap_filter_le {reports : List Report} (p : Record → Bool)
    (h : ∀ report ∈ reports, Data.ofBlob report.blob = .ok report.data) :
    (reports.flatMap fun report => report.data.records.filter p).length ≤
      bytesOf reports := by
  induction reports with
  | nil =>
      exact Nat.le_refl _
  | cons report rest ih =>
      rcases List.forall_mem_cons.mp h with ⟨hreport, hrest⟩
      have hfilter := List.length_filter_le p report.data.records
      have hrecords := length_records_le hreport
      have hothers := ih hrest
      unfold bytesOf at hothers ⊢
      rw [List.flatMap_cons, List.length_append, List.map_cons, List.sum_cons]
      omega

section Sizes

variable {arrivals : List Blob}

theorem mem_keys_of_accepted {report : Report}
    (h : report ∈ accepted ∅ arrivals) :
    report.thread ∈ (receive ∅ arrivals).threads.keys :=
  ((reported_receive arrivals).keys _).mpr ⟨report, h, rfl⟩

theorem bytesOf_accepted :
    bytesOf (accepted ∅ arrivals) =
      ((receive ∅ arrivals).allBlobs.map fun blob =>
        blob.payload.length).sum := by
  have hparted := perm_flatMap_filter_of_mem Report.thread
    (receive ∅ arrivals).threads.nodup_keys
    (fun report => mem_keys_of_accepted)
  rw [allBlobs_eq, ← bytesOf_perm hparted]
  unfold bytesOf
  rw [List.map_flatMap, List.map_flatMap]
  apply congrArg
  apply List.flatMap_congr
  intro t _
  rw [blobs_receive, List.map_map]
  rfl

theorem writable_adopted (h : (receive ∅ arrivals).InMemory) (t : ThreadName) :
    Format.WritableData
      ⟨(receive ∅ arrivals).adopted (accepted ∅ arrivals) t, []⟩ := by
  have hperm := perm_othersReports (reported_receive arrivals).keys t
  have hdata : ∀ report ∈
      (receive ∅ arrivals).othersReports (accepted ∅ arrivals) t,
      Data.ofBlob report.blob = .ok report.data := by
    intro report hreport
    exact ofBlob_of_mem_accepted
      (List.mem_filter.mp (hperm.mem_iff.mp hreport)).1
  refine ⟨⟨?_, ?_⟩, ?_⟩
  · have hlength := length_flatMap_filter_le
      ((receive ∅ arrivals).isOwnedBy t) hdata
    have hothers := bytesOf_filter_le (accepted ∅ arrivals)
      fun report => report.thread ≠ t
    rw [← bytesOf_perm hperm] at hothers
    unfold InMemory at h
    rw [← bytesOf_accepted] at h
    exact Nat.lt_of_le_of_lt (Nat.le_trans hlength hothers) h
  · intro r hr
    rcases List.mem_flatMap.mp hr with ⟨report, hreport, hmem⟩
    have hwritable := (ofBlob_eq_ok_iff.mp (hdata report hreport)).1
    exact hwritable.1.2 r (List.mem_filter.mp hmem).1
  · exact Nat.two_pow_pos 64

end Sizes

/-! ## What is shown -/

def adoptedBlobs (first : Blob) (t : ThreadName) (adopted : List Record) :
    List Blob :=
  if adopted.isEmpty then []
  else [Data.toBlob ⟨adopted, []⟩ (adoptedHeader first.header t adopted)]

theorem adoptedBlobs_eq (first : Blob) (t : ThreadName) {adopted : List Record}
    (h : Format.WritableData ⟨adopted, []⟩) :
    ∃ ds, (adoptedBlobs first t adopted).mapM Data.ofBlob = .ok ds ∧
      withRecords ds = withRecords [⟨adopted, []⟩] := by
  unfold adoptedBlobs
  by_cases hempty : adopted.isEmpty
  · rw [if_pos hempty]
    refine ⟨[], rfl, ?_⟩
    simp [withRecords, hempty]
  · rw [if_neg hempty, List.mapM_cons, ofBlob_toBlob h]
    exact ⟨[⟨adopted, []⟩], rfl, rfl⟩

theorem reshuffled_of_cons {p : PerformanceData} {t : ThreadName} {first : Blob}
    {rest : List Blob} {own : List (Option Blob)} {others : List (List Record)}
    (hfirst : p.blobs t = first :: rest)
    (hown : (p.blobs t).mapM (p.ownPart t) = .ok own)
    (hothers : (p.blobsOfOthers t).mapM (p.adoptedFrom t) = .ok others) :
    p.reshuffled t =
      .ok (own.filterMap id ++ adoptedBlobs first t others.flatten) := by
  unfold reshuffled adoptedBlobs
  rw [hown]
  simp only [hfirst, hothers, bind, Except.bind]
  by_cases hempty : others.flatten.isEmpty
  · rw [if_pos hempty, if_pos hempty, List.append_nil]
    rfl
  · rw [if_neg hempty, if_neg hempty]
    rfl

section Shown

variable {arrivals : List Blob}

theorem blobsOfOthers_receive (t : ThreadName) :
    (receive ∅ arrivals).blobsOfOthers t =
      ((receive ∅ arrivals).othersReports (accepted ∅ arrivals) t).map
        Report.blob := by
  rw [blobsOfOthers_eq]
  unfold othersReports
  rw [List.map_flatMap]
  apply List.flatMap_congr
  intro u _
  exact blobs_receive arrivals u

theorem mapM_adoptedFrom (t : ThreadName) :
    ((receive ∅ arrivals).blobsOfOthers t).mapM
        ((receive ∅ arrivals).adoptedFrom t) =
      .ok (((receive ∅ arrivals).othersReports (accepted ∅ arrivals) t).map
        fun report =>
          report.data.records.filter ((receive ∅ arrivals).isOwnedBy t)) := by
  rw [blobsOfOthers_receive, List.mapM_map]
  apply mapM_eq_ok
  intro report hreport
  have hperm := perm_othersReports (reported_receive arrivals).keys t
  have hmem := (List.mem_filter.mp (hperm.mem_iff.mp hreport)).1
  simp only [Function.comp_apply, adoptedFrom]
  rw [ofBlob_of_mem_accepted hmem]
  rfl

theorem blobs_ne_nil {t : ThreadName}
    (ht : t ∈ (receive ∅ arrivals).threads.keys) :
    (receive ∅ arrivals).blobs t ≠ [] := by
  rcases ((reported_receive arrivals).keys t).mp ht with
    ⟨report, hreport, hthread⟩
  rw [blobs_receive]
  intro hnone
  have hfilter := List.filter_eq_nil_iff.mp (List.map_eq_nil_iff.mp hnone)
  exact hfilter report hreport (decide_eq_true hthread)

theorem reshuffled_ok {t : ThreadName}
    (ht : t ∈ (receive ∅ arrivals).threads.keys) :
    ∃ first own kept,
      ((receive ∅ arrivals).blobs t).mapM
        ((receive ∅ arrivals).ownPart t) = .ok own ∧
      (own.filterMap id).mapM Data.ofBlob = .ok kept ∧
      withRecords kept = withRecords
        (((accepted ∅ arrivals).filter fun report => report.thread = t).map
          fun report => (receive ∅ arrivals).kept t report.data) ∧
      (receive ∅ arrivals).reshuffled t = .ok (own.filterMap id ++
        adoptedBlobs first t
          ((receive ∅ arrivals).adopted (accepted ∅ arrivals) t)) := by
  have hdecoded : ∀ report ∈
      (accepted ∅ arrivals).filter fun report => report.thread = t,
      Data.ofBlob report.blob = .ok report.data := by
    intro report hreport
    exact ofBlob_of_mem_accepted (List.mem_filter.mp hreport).1
  rcases (receive ∅ arrivals).ownParts_eq t hdecoded with
    ⟨own, kept, hown, hkept, hsame⟩
  rw [← blobs_receive] at hown
  rcases List.exists_cons_of_ne_nil (blobs_ne_nil ht) with
    ⟨first, rest, hfirst⟩
  exact ⟨first, own, kept, hown, hkept, hsame,
    reshuffled_of_cons hfirst hown (mapM_adoptedFrom t)⟩

theorem reshuffled_of_not_mem {p : PerformanceData} {t : ThreadName}
    (ht : t ∉ p.threads.keys) : p.reshuffled t = .ok [] := by
  have hnone : p.threads.get? t = none := by
    rw [Option.eq_none_iff_forall_ne_some]
    intro data hdata
    exact ht (OrderedMap.mem_keys_iff.mpr ⟨data, hdata⟩)
  have hblobs : p.blobs t = [] := by
    unfold blobs thread
    rw [hnone]
    rfl
  unfold reshuffled
  rw [hblobs]
  rfl

theorem exists_reshuffled (arrivals : List Blob) (t : ThreadName) :
    ∃ blobs, (receive ∅ arrivals).reshuffled t = .ok blobs := by
  by_cases ht : t ∈ (receive ∅ arrivals).threads.keys
  · rcases reshuffled_ok ht with ⟨_, _, _, _, _, _, hshown⟩
    exact ⟨_, hshown⟩
  · exact ⟨[], reshuffled_of_not_mem ht⟩

theorem reshuffled_eq (h : (receive ∅ arrivals).InMemory) {t : ThreadName}
    (ht : t ∈ (receive ∅ arrivals).threads.keys) :
    ∃ blobs ds, (receive ∅ arrivals).reshuffled t = .ok blobs ∧
      blobs.mapM Data.ofBlob = .ok ds ∧
        withRecords ds =
          withRecords ((receive ∅ arrivals).share (accepted ∅ arrivals) t) := by
  rcases reshuffled_ok ht with ⟨first, own, kept, _, hkept, hsame, hshown⟩
  rcases adoptedBlobs_eq first t (writable_adopted h t) with
    ⟨gained, hgained, hothers⟩
  refine ⟨_, kept ++ gained, hshown, mapM_append_eq_ok hkept hgained, ?_⟩
  unfold withRecords at hsame hothers ⊢
  rw [List.filter_append, hsame, hothers, ← List.filter_append]
  rfl

theorem id_of_mem_reshuffled
    (hid : ∀ blob ∈ arrivals, blob.header.id = collectorId) {t : ThreadName}
    (ht : t ∈ (receive ∅ arrivals).threads.keys) {blobs : List Blob}
    (h : (receive ∅ arrivals).reshuffled t = .ok blobs) :
    ∀ blob ∈ blobs, blob.header.id = collectorId := by
  rcases reshuffled_ok ht with ⟨first, own, _, hown, _, _, hshown⟩
  rw [hshown] at h
  cases h
  intro blob hblob
  rcases List.mem_append.mp hblob with hblob | hblob
  · rcases List.mem_filterMap.mp hblob with ⟨part, hpart, heq⟩
    change part = some blob at heq
    rw [heq] at hpart
    rcases exists_of_mapM_eq_ok hown hpart with ⟨source, hsource, hsome⟩
    rw [header_of_ownPart hsome]
    rw [blobs_receive] at hsource
    rcases List.mem_map.mp hsource with ⟨report, hreport, rfl⟩
    exact hid _ (blob_mem_of_mem_accepted (List.mem_filter.mp hreport).1)
  · unfold adoptedBlobs at hblob
    split at hblob
    · cases hblob
    · rw [List.mem_singleton.mp hblob]
      rfl

theorem reshuffled_holds (h : (receive ∅ arrivals).InMemory) {t : ThreadName}
    (ht : t ∈ (receive ∅ arrivals).threads.keys) :
    ∃ blobs ds, (receive ∅ arrivals).reshuffled t = .ok blobs ∧
      blobs.mapM Data.ofBlob = .ok ds ∧
      ds.flatMap Data.fixed =
        ((accepted ∅ arrivals).filter fun report => report.thread = t).flatMap
          (fun report => report.data.fixed) ∧
      (ds.flatMap Data.records).Perm
        (((told (accepted ∅ arrivals)).filter fun e =>
          destination (accepted ∅ arrivals) e = t).map Prod.snd) := by
  rcases reshuffled_eq h ht with ⟨blobs, ds, hblobs, hds, hshare⟩
  have hfixed : ∀ d : Data, d.records = [] → d.fixed = [] := by
    intro d hd
    unfold Data.fixed
    rw [hd]
    rfl
  refine ⟨blobs, ds, hblobs, hds, ?_, ?_⟩
  · rw [← flatMap_withRecords hfixed, hshare, flatMap_withRecords hfixed]
    exact fixed_share t
  · have hrecords : ∀ d : Data, d.records = [] → d.records = [] :=
      fun _ hd => hd
    rw [← flatMap_withRecords hrecords, hshare, flatMap_withRecords hrecords]
    exact perm_records_share (reported_receive arrivals).keys
      (owners_receive arrivals) t

theorem perm_pcs_shown {shown : ThreadName → List Data}
    (h : ∀ t ∈ (receive ∅ arrivals).threads.keys,
      (shown t).flatMap Data.fixed =
        ((accepted ∅ arrivals).filter fun report => report.thread = t).flatMap
          fun report => report.data.fixed) :
    (((receive ∅ arrivals).threads.keys.flatMap shown).flatMap Data.pcs).Perm
      ((accepted ∅ arrivals).flatMap fun report => report.data.pcs) := by
  have hparted := perm_flatMap_filter_of_mem Report.thread
    (receive ∅ arrivals).threads.nodup_keys
    (fun report => mem_keys_of_accepted)
  have hshown : ((receive ∅ arrivals).threads.keys.flatMap shown).flatMap
      Data.pcs = ((receive ∅ arrivals).threads.keys.flatMap fun t =>
        (accepted ∅ arrivals).filter fun report => report.thread = t).flatMap
          fun report => report.data.pcs := by
    rw [List.flatMap_assoc, List.flatMap_assoc]
    apply List.flatMap_congr
    intro t ht
    have hfixed := congrArg (List.flatMap fun e => Data.pcsOf ⟨[], e.2⟩ e.1)
      (h t ht)
    rw [List.flatMap_assoc, List.flatMap_assoc] at hfixed
    simp only [← pcs_eq] at hfixed
    exact hfixed
  rw [hshown]
  exact hparted.flatMap_right _

theorem destination_mem_keys {e : ThreadName × Record}
    (he : e ∈ told (accepted ∅ arrivals)) :
    destination (accepted ∅ arrivals) e ∈
      (receive ∅ arrivals).threads.keys := by
  rcases List.mem_flatMap.mp he with ⟨report, hreport, hmem⟩
  rcases List.mem_map.mp hmem with ⟨record, _, rfl⟩
  rw [(reported_receive arrivals).keys]
  unfold destination
  split
  · next key _ =>
    cases howner : lastRequester (accepted ∅ arrivals) key with
    | none =>
        exact ⟨report, hreport, rfl⟩
    | some owner =>
        exact mem_of_lastRequester howner
  · exact ⟨report, hreport, rfl⟩

theorem reshuffled_records (h : (receive ∅ arrivals).InMemory)
    (t : ThreadName) :
    ∃ blobs ds, (receive ∅ arrivals).reshuffled t = .ok blobs ∧
      blobs.mapM Data.ofBlob = .ok ds ∧
      (ds.flatMap Data.records).Perm
        (((told (accepted ∅ arrivals)).filter fun e =>
          destination (accepted ∅ arrivals) e = t).map Prod.snd) := by
  by_cases ht : t ∈ (receive ∅ arrivals).threads.keys
  · rcases reshuffled_holds h ht with ⟨blobs, ds, hblobs, hds, _, hperm⟩
    exact ⟨blobs, ds, hblobs, hds, hperm⟩
  · have hothers : ((told (accepted ∅ arrivals)).filter fun e =>
        destination (accepted ∅ arrivals) e = t) = [] := by
      rw [List.filter_eq_nil_iff]
      intro e he hself
      exact ht (of_decide_eq_true hself ▸ destination_mem_keys he)
    rw [hothers]
    exact ⟨[], [], reshuffled_of_not_mem ht, rfl, .nil⟩

theorem perm_records_shown (h : (receive ∅ arrivals).InMemory)
    {threads : List ThreadName} (hnodup : threads.Nodup)
    (hall : ∀ report ∈ accepted ∅ arrivals, report.thread ∈ threads)
    {blobs : ThreadName → List Blob}
    (hblobs : ∀ t ∈ threads, (receive ∅ arrivals).reshuffled t = .ok (blobs t)) :
    ∃ ds, (threads.flatMap blobs).mapM Data.ofBlob = .ok ds ∧
      (ds.flatMap Data.records).Perm
        ((accepted ∅ arrivals).flatMap fun report => report.data.records) := by
  have hkeys : ∀ t ∈ (receive ∅ arrivals).threads.keys, t ∈ threads := by
    intro t ht
    rcases ((reported_receive arrivals).keys t).mp ht with
      ⟨report, hreport, rfl⟩
    exact hall report hreport
  have hshare : ∀ t ∈ threads, ∃ ds, (blobs t).mapM Data.ofBlob = .ok ds ∧
      (ds.flatMap Data.records).Perm
        (((told (accepted ∅ arrivals)).filter fun e =>
          destination (accepted ∅ arrivals) e = t).map Prod.snd) := by
    intro t ht
    rcases reshuffled_records h t with ⟨shown, ds, hshown, hds, hperm⟩
    rw [hblobs t ht] at hshown
    cases hshown
    exact ⟨ds, hds, hperm⟩
  choose! shown hshown hperm using hshare
  have hparted := perm_flatMap_filter_of_mem
    (destination (accepted ∅ arrivals)) hnodup
    fun e he => hkeys _ (destination_mem_keys he)
  refine ⟨threads.flatMap shown, mapM_flatMap_eq_ok hshown, ?_⟩
  rw [List.flatMap_assoc, ← map_snd_told]
  refine (List.Perm.flatMap_left _ hperm).trans ?_
  rw [← List.map_flatMap]
  exact hparted.map Prod.snd

end Shown

/-- How the data shown of every thread relates to the accepted blobs. -/
structure Conserved (arrivals : List Blob) (shown : ThreadName → List Data) :
    Prop where
  /-- The visit of a thread ends well, and its blobs can be read. -/
  readable : ∀ t ∈ (receive ∅ arrivals).threads.keys, ∃ blobs,
    (receive ∅ arrivals).reshuffled t = .ok blobs ∧
      blobs.mapM Data.ofBlob = .ok (shown t)
  /-- All threads together show what was reported. -/
  records : ((receive ∅ arrivals).threads.keys.flatMap fun t =>
    (shown t).flatMap Data.records).Perm
      ((accepted ∅ arrivals).flatMap fun report => report.data.records)
  /-- What is no completion stays with its reporter, in its order and with its
  pool of stack traces. -/
  fixed : ∀ t ∈ (receive ∅ arrivals).threads.keys,
    (shown t).flatMap Data.fixed =
      ((accepted ∅ arrivals).filter fun report => report.thread = t).flatMap
        fun report => report.data.fixed
  /-- Every thread shows what belongs to it. -/
  belongs : ∀ t ∈ (receive ∅ arrivals).threads.keys,
    ((shown t).flatMap Data.records).Perm
      (((told (accepted ∅ arrivals)).filter fun e =>
        destination (accepted ∅ arrivals) e = t).map Prod.snd)

/-- Whatever blobs arrive, the visit of no thread fails, and the blobs shown of
all threads conserve the records of the accepted ones. -/
theorem reshuffled_conserves_records (arrivals : List Blob) :
    (∀ t ∈ (receive ∅ arrivals).threads.keys, ∃ blobs,
      (receive ∅ arrivals).reshuffled t = .ok blobs) ∧
    ((receive ∅ arrivals).InMemory → ∃ shown, Conserved arrivals shown) := by
  constructor
  · intro t ht
    rcases reshuffled_ok ht with ⟨_, _, _, _, _, _, hshown⟩
    exact ⟨_, hshown⟩
  · intro h
    have hholds : ∀ t ∈ (receive ∅ arrivals).threads.keys, _ :=
      fun t ht => reshuffled_holds h ht
    choose! blobs shown hblobs hshown hfixed hbelongs using hholds
    have hparted := perm_flatMap_filter_of_mem
      (destination (accepted ∅ arrivals))
      (receive ∅ arrivals).threads.nodup_keys (fun _ => destination_mem_keys)
    refine ⟨shown, ?_, ?_, hfixed, hbelongs⟩
    · intro t ht
      exact ⟨blobs t, hblobs t ht, hshown t ht⟩
    · rw [← map_snd_told]
      refine (List.Perm.flatMap_left _ hbelongs).trans ?_
      rw [← List.map_flatMap]
      exact hparted.map Prod.snd

def crossing : List Blob :=
  let header (pid : UInt64) : BlobHeader :=
    ⟨0, 0, collectorId, .ofName ⟨"a", pid, none, none⟩, ⟨0, 1⟩⟩
  [Data.toBlob ⟨[.completedXfer ⟨1, 2, 3, 20, 30, 64, .hostToDevice, .pageable,
      .device, false⟩], []⟩ (header 1),
    Data.toBlob ⟨[.request ⟨.memoryCopy, 10, 1, 2, 3, 0⟩], [7, 0]⟩ (header 2),
    Data.toBlob ⟨[.request ⟨.memoryCopy, 11, 1, 2, 3, 5⟩], [7, 0]⟩ (header 1)]

theorem reshuffled_conserves_records_crossing :
    (receive ∅ crossing).InMemory ∧ (accepted ∅ crossing).length = 2 ∧
      ∃ shown, Conserved crossing shown := by
  have hmemory : (receive ∅ crossing).InMemory := by
    unfold InMemory
    decide +kernel
  refine ⟨hmemory, ?_, (reshuffled_conserves_records crossing).2 hmemory⟩
  decide +kernel

end PerformanceData
end Cuda
end CudaProfile
