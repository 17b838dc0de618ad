import Mathlib.Data.List.Perm.Basic
import CudaProfile.Proofs.Cuda.Run
/-!
# Requests and completions are paired in any order

A completion may come before its request or after it, in the same blob or in
another one, from the same thread or from another one. The invariant says which
requests wait, which completions are parked, and that what is stored are the
pairs among all that came so far. Every request and every completion keeps it,
as long as no key comes up twice on either side.
-/

namespace CudaProfile
namespace Cuda

open Std Lexicographic

/-! ## Requests and completions of reports -/

structure Asked where
  thread : ThreadName
  frames : List Address
  request : Request
deriving DecidableEq

def Asked.key (a : Asked) : RequestKey :=
  a.request.key

def askedBy (t : ThreadName) (d : Data) (record : Record) : Option Asked :=
  record.request?.map fun r => ⟨t, (d.stackTrace? r.callSite).getD [], r⟩

def asked (reports : List Report) : List Asked :=
  reports.flatMap fun report =>
    report.data.records.filterMap (askedBy report.thread report.data)

def completed (reports : List Report) : List (RequestKey × Completion) :=
  reports.flatMap fun report => report.data.records.filterMap Record.completion?

theorem completed_eq (reports : List Report) :
    completed reports = (reports.flatMap fun report =>
      report.data.records).filterMap Record.completion? := by
  rw [List.filterMap_flatMap]
  rfl

theorem filterMap_singleton {α β : Type} (f : α → Option β) (a : α) :
    [a].filterMap f = (f a).toList := by
  cases h : f a with
  | none =>
      rw [List.filterMap_cons_none h]
      rfl
  | some b =>
      rw [List.filterMap_cons_some h]
      rfl

theorem filterMap_records_push {β : Type} {f : Report → Record → Option β}
    (reports : List Report) (blob : Blob) (d : Data) (record : Record)
    (hf : f ⟨blob, d.push record⟩ = f ⟨blob, d⟩) :
    List.flatMap (fun report => report.data.records.filterMap (f report))
        (reports ++ [⟨blob, d.push record⟩]) =
      List.flatMap (fun report => report.data.records.filterMap (f report))
          (reports ++ [⟨blob, d⟩]) ++
        (f ⟨blob, d⟩ record).toList := by
  rw [List.flatMap_append, List.flatMap_append, List.flatMap_singleton,
    List.flatMap_singleton, List.append_assoc, hf]
  apply congrArg
  change (d.records ++ [record]).filterMap (f ⟨blob, d⟩) = _
  rw [List.filterMap_append, filterMap_singleton]

theorem asked_push (reports : List Report) (blob : Blob) (d : Data)
    (record : Record) :
    asked (reports ++ [⟨blob, d.push record⟩]) =
      asked (reports ++ [⟨blob, d⟩]) ++
        (askedBy blob.thread d record).toList :=
  filterMap_records_push (f := fun report =>
    askedBy report.thread report.data) reports blob d record rfl

theorem completed_push (reports : List Report) (blob : Blob) (d : Data)
    (record : Record) :
    completed (reports ++ [⟨blob, d.push record⟩]) =
      completed (reports ++ [⟨blob, d⟩]) ++ record.completion?.toList :=
  filterMap_records_push (f := fun _ => Record.completion?) reports blob d
    record rfl

/-! ## Owners and requests -/

theorem requests_iff_asked (t : ThreadName) (d : Data) (key : RequestKey) :
    d.requests key = true ↔
      ∃ a ∈ d.records.filterMap (askedBy t d), a.key = key := by
  unfold Data.requests
  rw [List.any_eq_true]
  constructor
  · intro hrequest
    rcases hrequest with ⟨r, hr, hkey⟩
    rcases Option.map_eq_some_iff.mp (of_decide_eq_true hkey) with
      ⟨request, hrecord, hsame⟩
    refine ⟨⟨t, (d.stackTrace? request.callSite).getD [], request⟩, ?_, hsame⟩
    refine List.mem_filterMap.mpr ⟨r, hr, ?_⟩
    unfold askedBy
    rw [hrecord]
    rfl
  · intro hasked
    rcases hasked with ⟨a, ha, hkey⟩
    rcases List.mem_filterMap.mp ha with ⟨r, hr, hrecord⟩
    rcases Option.map_eq_some_iff.mp hrecord with ⟨request, hrequest, hsame⟩
    subst hsame
    refine ⟨r, hr, decide_eq_true ?_⟩
    rw [hrequest, ← hkey]
    rfl

theorem thread_of_mem_asked {report : Report} {a : Asked}
    (h : a ∈ report.data.records.filterMap
      (askedBy report.thread report.data)) : a.thread = report.thread := by
  rcases List.mem_filterMap.mp h with ⟨r, _, hrecord⟩
  rcases Option.map_eq_some_iff.mp hrecord with ⟨request, _, hsame⟩
  rw [← hsame]

theorem mem_asked_of_lastRequester {reports : List Report} {key : RequestKey}
    {t : ThreadName} (h : lastRequester reports key = some t) :
    ∃ a ∈ asked reports, a.key = key ∧ a.thread = t := by
  rcases Option.map_eq_some_iff.mp h with ⟨report, hfind, hthread⟩
  have hmem := List.mem_reverse.mp (List.mem_of_find?_eq_some hfind)
  have hrequests := List.find?_some hfind
  rcases (requests_iff_asked report.thread _ _).mp hrequests with
    ⟨a, ha, hkey⟩
  exact ⟨a, List.mem_flatMap.mpr ⟨report, hmem, ha⟩, hkey,
    (thread_of_mem_asked ha).trans hthread⟩

theorem exists_lastRequester {reports : List Report} {a : Asked}
    (ha : a ∈ asked reports) : ∃ t, lastRequester reports a.key = some t := by
  rcases List.mem_flatMap.mp ha with ⟨report, hreport, hrecord⟩
  have hrequests : report.data.requests a.key = true :=
    (requests_iff_asked report.thread _ _).mpr ⟨a, hrecord, rfl⟩
  cases hlast : lastRequester reports a.key with
  | none =>
      have hnone := List.find?_eq_none.mp
        (Option.map_eq_none_iff.mp hlast) report
        (List.mem_reverse.mpr hreport)
      exact absurd hrequests hnone
  | some t =>
      exact ⟨t, rfl⟩

/-- No key is requested by two threads. -/
def Unshared (requests : List Asked) : Prop :=
  ∀ a ∈ requests, ∀ b ∈ requests, a.key = b.key → a.thread = b.thread

instance (requests : List Asked) : Decidable (Unshared requests) :=
  inferInstanceAs (Decidable (∀ a ∈ requests, _))

theorem lastRequester_eq_some_iff {reports : List Report}
    (h : Unshared (asked reports)) {key : RequestKey} {t : ThreadName} :
    lastRequester reports key = some t ↔
      ∃ a ∈ asked reports, a.key = key ∧ a.thread = t := by
  constructor
  · exact mem_asked_of_lastRequester
  · intro hasked
    rcases hasked with ⟨a, ha, rfl, rfl⟩
    rcases exists_lastRequester ha with ⟨t, ht⟩
    rcases mem_asked_of_lastRequester ht with ⟨b, hb, hkey, hthread⟩
    rw [ht, ← hthread, h b hb a ha hkey]

theorem lastRequester_of_perm {reports reports' : List Report}
    (h : Unshared (asked reports))
    (hperm : (asked reports').Perm (asked reports)) (key : RequestKey) :
    lastRequester reports' key = lastRequester reports key := by
  have hunshared : Unshared (asked reports') := by
    intro a ha b hb
    exact h a (hperm.mem_iff.mp ha) b (hperm.mem_iff.mp hb)
  apply Option.ext
  intro t
  rw [lastRequester_eq_some_iff hunshared, lastRequester_eq_some_iff h]
  simp only [hperm.mem_iff]

/-! ## Pairs -/

/-- Every request with every completion of its key. -/
def pairs (requests : List Asked)
    (completions : List (RequestKey × Completion)) :
    List (Asked × Completion) :=
  requests.flatMap fun a =>
    (completions.filter fun c => c.1 = a.key).map fun c => (a, c.2)

theorem filter_eq_singleton {α κ : Type} [DecidableEq κ] {f : α → κ}
    {items : List α} (h : (items.map f).Nodup) {a : α} (ha : a ∈ items) :
    (items.filter fun b => f b = f a) = [a] := by
  induction items with
  | nil =>
      cases ha
  | cons b rest ih =>
      rw [List.map_cons, List.nodup_cons] at h
      rcases h with ⟨hb, hrest⟩
      rcases List.mem_cons.mp ha with rfl | ha
      · rw [List.filter_cons_of_pos (by simp)]
        apply congrArg (List.cons a)
        apply List.filter_eq_nil_iff.mpr
        intro c hc heq
        exact hb (List.mem_map.mpr ⟨c, hc, of_decide_eq_true heq⟩)
      · have hne : f b ≠ f a := by
          intro heq
          exact hb (List.mem_map.mpr ⟨a, ha, heq.symm⟩)
        rw [List.filter_cons_of_neg (by simp [hne])]
        exact ih hrest ha

theorem filter_eq_nil_of_not_mem {α κ : Type} [DecidableEq κ] {f : α → κ}
    {items : List α} {key : κ} (h : key ∉ items.map f) :
    (items.filter fun b => f b = key) = [] := by
  apply List.filter_eq_nil_iff.mpr
  intro b hb heq
  exact h (List.mem_map.mpr ⟨b, hb, of_decide_eq_true heq⟩)

theorem not_mem_map_append {α κ : Type} {f : α → κ} {items : List α} {a : α}
    {key : κ} :
    key ∉ (items ++ [a]).map f ↔ key ∉ items.map f ∧ key ≠ f a := by
  rw [List.map_append, List.mem_append, not_or, List.map_singleton,
    List.mem_singleton]

section Pairs

variable (requests : List Asked) (completions : List (RequestKey × Completion))

theorem pairs_append_request (a : Asked) :
    pairs (requests ++ [a]) completions =
      pairs requests completions ++
        (completions.filter fun c => c.1 = a.key).map fun c => (a, c.2) := by
  unfold pairs
  rw [List.flatMap_append, List.flatMap_singleton]

theorem pairs_append_completion (c : RequestKey × Completion) :
    (pairs requests (completions ++ [c])).Perm
      (pairs requests completions ++
        (requests.filter fun a => a.key = c.1).map fun a => (a, c.2)) := by
  have hlast : (requests.flatMap fun a =>
      ([c].filter fun c => c.1 = a.key).map fun c => (a, c.2)) =
        (requests.filter fun a => a.key = c.1).map fun a => (a, c.2) := by
    induction requests with
    | nil =>
        rfl
    | cons a rest ih =>
        rw [List.flatMap_cons, ih]
        by_cases h : a.key = c.1
        · simp [h]
        · simp [h, Ne.symm h]
  rw [← hlast]
  unfold pairs
  refine List.Perm.trans ?_ (List.flatMap_append_perm _ _ _).symm
  apply List.Perm.of_eq
  apply List.flatMap_congr
  intro a _
  rw [List.filter_append, List.map_append]

theorem pairs_perm {requests requests' : List Asked}
    {completions completions' : List (RequestKey × Completion)}
    (hrequests : requests.Perm requests')
    (hcompletions : completions.Perm completions') :
    (pairs requests completions).Perm (pairs requests' completions') :=
  hrequests.flatMap fun _ _ => (hcompletions.filter _).map _

end Pairs

/-! ## Activities -/

/-- What is stored of a pair besides the device: the frames of the request, its
time, and the rest from the completion. -/
inductive Activity where
  | kernel (frames : Option (List Address)) (time : Time) (exec : CompletedExec)
  | transfer (frames : Option (List Address)) (time timeBegin timeEnd : Time)
      (size : UInt64) (kind : CopyKind) (source destination : MemoryKind)
      (asynchronous : Bool)

def Activity.frames : Activity → Option (List Address)
  | kernel frames _ _ => frames
  | transfer frames _ _ _ _ _ _ _ _ => frames

def KernelExecution.completion (k : KernelExecution) : CompletedExec :=
  ⟨k.context, k.stream, k.correlation, k.timeBegin, k.timeEnd, k.function,
    k.grid, k.block, k.cachePreference, k.registersPerThread,
    k.staticSharedMemory, k.dynamicSharedMemory, k.localMemory⟩

/-- The activity that a pair tells of, for the thread that made the request. A
kernel that was executed answers no request for a copy, and a copy none for a
kernel. -/
def activityOf (t : ThreadName) : Asked × Completion → Option Activity
  | (a, completion) =>
      if a.thread = t then
        match a.request.kind, completion with
        | .executeKernel, .exec e =>
            some (.kernel (some a.frames) a.request.time e)
        | .memoryCopy, .xfer x =>
            some (.transfer (some a.frames) a.request.time x.timeBegin x.timeEnd
              x.size x.kind x.sourceKind x.destinationKind x.asynchronous)
        | _, _ => none
      else none

theorem frames_of_activityOf {t : ThreadName} {pair : Asked × Completion}
    {activity : Activity} (h : activityOf t pair = some activity) :
    activity.frames ≠ none := by
  rcases pair with ⟨a, completion⟩
  unfold activityOf at h
  simp only at h
  split at h
  · split at h
    · cases h
      exact Option.some_ne_none _
    · cases h
      exact Option.some_ne_none _
    · cases h
  · cases h

namespace ThreadData

def activities (sites : List (List Address)) (data : ThreadData) :
    List Activity :=
  (data.kernels.map fun k =>
      .kernel sites[k.callSite]? k.time k.completion) ++
    data.transfers.map fun x =>
      .transfer sites[x.callSite]? x.time x.timeBegin x.timeEnd x.size x.kind
        x.sourceKind x.destinationKind x.asynchronous

theorem activities_push_kernel (sites : List (List Address)) (data : ThreadData)
    (k : KernelExecution) :
    (activities sites { data with kernels := data.kernels ++ [k] }).Perm
      (activities sites data ++
        [.kernel sites[k.callSite]? k.time k.completion]) := by
  unfold activities
  rw [List.map_append, List.append_assoc, List.append_assoc]
  exact List.perm_append_comm.append_left _

theorem activities_push_transfer (sites : List (List Address))
    (data : ThreadData) (x : DataTransfer) :
    activities sites { data with transfers := data.transfers ++ [x] } =
      activities sites data ++
        [.transfer sites[x.callSite]? x.time x.timeBegin x.timeEnd x.size x.kind
          x.sourceKind x.destinationKind x.asynchronous] := by
  unfold activities
  rw [List.map_append, List.append_assoc]
  rfl

end ThreadData

namespace PerformanceData

def activities (p : PerformanceData) (t : ThreadName) : List Activity :=
  (p.thread t).activities p.callSites

theorem getElem?_of_prefix {α : Type} {xs ys : List α} (h : xs <+: ys)
    {number : Nat} {a : α} (ha : xs[number]? = some a) :
    ys[number]? = some a := by
  rcases h with ⟨more, rfl⟩
  rw [List.getElem?_append_left (List.getElem?_eq_some_iff.mp ha).1]
  exact ha

theorem activities_congr {p q : PerformanceData} {t : ThreadName}
    (hsites : p.callSites <+: q.callSites)
    (hkernels : (q.thread t).kernels = (p.thread t).kernels)
    (htransfers : (q.thread t).transfers = (p.thread t).transfers)
    (hframes : ∀ activity ∈ p.activities t, activity.frames ≠ none) :
    q.activities t = p.activities t := by
  have hsite : ∀ number : Nat, p.callSites[number]? ≠ none →
      q.callSites[number]? = p.callSites[number]? := by
    intro number hnumber
    rcases Option.ne_none_iff_exists'.mp hnumber with ⟨trace, htrace⟩
    rw [htrace]
    exact getElem?_of_prefix hsites htrace
  unfold activities ThreadData.activities at hframes ⊢
  rw [hkernels, htransfers]
  apply congrArg₂
  · apply List.map_congr_left
    intro k hk
    rw [hsite k.callSite]
    exact hframes _ (List.mem_append_left _ (List.mem_map_of_mem hk))
  · apply List.map_congr_left
    intro x hx
    rw [hsite x.callSite]
    exact hframes _ (List.mem_append_right _ (List.mem_map_of_mem hx))

theorem activities_of_threads_eq {p q : PerformanceData} {t : ThreadName}
    (hsites : p.callSites <+: q.callSites) (hthreads : q.threads = p.threads)
    (hframes : ∀ activity ∈ p.activities t, activity.frames ≠ none) :
    q.activities t = p.activities t := by
  have hthread := thread_congr hthreads t
  exact activities_congr hsites (congrArg ThreadData.kernels hthread)
    (congrArg ThreadData.transfers hthread) hframes

theorem Sampled.activities_eq {name : ThreadName} {p q : PerformanceData}
    (h : Sampled name p q) {t : ThreadName}
    (hframes : ∀ activity ∈ p.activities t, activity.frames ≠ none) :
    q.activities t = p.activities t := by
  have hsites : p.callSites <+: q.callSites :=
    ⟨[], by rw [List.append_nil, h.callSites]⟩
  exact activities_congr hsites (h.kernels t) (h.transfers t) hframes

theorem activities_changeThread (p : PerformanceData) (name t : ThreadName)
    (f : ThreadData → ThreadData) :
    (p.changeThread name f).activities t =
      if t = name then (f (p.thread t)).activities p.callSites
      else p.activities t := by
  unfold activities
  rw [thread_changeThread]
  by_cases h : t = name
  · rw [if_pos h, if_pos h, h]
    rfl
  · rw [if_neg h, if_neg h]
    rfl

theorem activities_join {p : PerformanceData} {a : Asked} {number : Nat}
    (hsite : p.callSites[number]? = some a.frames) (completion : Completion)
    (t : ThreadName) :
    ((p.join ⟨a.thread, a.request, number⟩ completion).activities t).Perm
      (p.activities t ++ (activityOf t (a, completion)).toList) := by
  rcases a with ⟨thread, frames, request⟩
  unfold join activityOf
  simp only
  split
  · next x hkind =>
    rw [activities_changeThread]
    by_cases ht : t = thread
    · rw [if_pos ht, if_pos ht.symm, ThreadData.activities_push_transfer]
      simp only [Pending.transfer, hsite, hkind]
      exact List.Perm.refl _
    · rw [if_neg ht, if_neg (Ne.symm ht)]
      simp
  · next e hkind =>
    rw [activities_changeThread]
    by_cases ht : t = thread
    · rw [if_pos ht, if_pos ht.symm]
      refine (ThreadData.activities_push_kernel _ _ _).trans ?_
      simp only [Pending.execution, hsite, hkind]
      exact List.Perm.refl _
    · rw [if_neg ht, if_neg (Ne.symm ht)]
      simp
  · next e hkind =>
    simp [hkind]
  · next x hkind =>
    simp [hkind]

/-! ## Stored pairs -/

section Stored

variable {p : PerformanceData} {t : ThreadName}
  {stored stored' : List (Asked × Completion)}

theorem frames_of_stored
    (h : (p.activities t).Perm (stored.filterMap (activityOf t))) :
    ∀ activity ∈ p.activities t, activity.frames ≠ none := by
  intro activity hmem
  rcases List.mem_filterMap.mp (h.mem_iff.mp hmem) with ⟨pair, _, hactivity⟩
  exact frames_of_activityOf hactivity

theorem perm_stored_append {pair : Asked × Completion}
    {activities : List Activity}
    (h : (p.activities t).Perm (stored.filterMap (activityOf t)))
    (hpairs : stored'.Perm (stored ++ [pair]))
    (hactivities : activities.Perm
      (p.activities t ++ (activityOf t pair).toList)) :
    activities.Perm (stored'.filterMap (activityOf t)) := by
  refine hactivities.trans ?_
  refine List.Perm.trans ?_ (hpairs.filterMap (activityOf t)).symm
  rw [List.filterMap_append, filterMap_singleton]
  exact h.append_right _

end Stored

/-! ## The invariant -/

/-- How data relates to the requests and the completions so far. -/
structure Matched (requests : List Asked)
    (completions : List (RequestKey × Completion)) (p : PerformanceData) :
    Prop where
  /-- A request waits if its completion is missing. -/
  waiting : ∀ a ∈ requests, a.key ∉ completions.map Prod.fst →
    ∃ number, p.callSites[number]? = some a.frames ∧
      p.requests.get? a.key = some ⟨a.thread, a.request, number⟩
  /-- Only such requests wait. -/
  unanswered : ∀ key, p.requests.get? key ≠ none →
    key ∉ completions.map Prod.fst ∧ ∃ a ∈ requests, a.key = key
  /-- The completions whose requests are missing are parked. -/
  parked : ∀ key completion, p.parked.get? key = some completion ↔
    (key, completion) ∈ completions ∧ key ∉ requests.map Asked.key
  /-- The pairs are stored, and nothing else. -/
  stored : ∀ t, (p.activities t).Perm
    ((pairs requests completions).filterMap (activityOf t))

section Matched

variable {requests : List Asked} {completions : List (RequestKey × Completion)}
  {p q : PerformanceData}

theorem Matched.frames (h : Matched requests completions p) (t : ThreadName) :
    ∀ activity ∈ p.activities t, activity.frames ≠ none :=
  frames_of_stored (h.stored t)

theorem Matched.congr (h : Matched requests completions p)
    (hsites : q.callSites = p.callSites) (hrequests : q.requests = p.requests)
    (hparked : q.parked = p.parked)
    (hstored : ∀ t, q.activities t = p.activities t) :
    Matched requests completions q := by
  constructor
  · rw [hsites, hrequests]
    exact h.waiting
  · rw [hrequests]
    exact h.unanswered
  · rw [hparked]
    exact h.parked
  · intro t
    rw [hstored]
    exact h.stored t

theorem Matched.request_met (h : Matched requests completions p) {a : Asked}
    {number : Nat} {completion : Completion}
    (hcompletions : (completions.map Prod.fst).Nodup)
    (hparked : p.parked.get? a.key = some completion)
    (hsites : p.callSites <+: q.callSites)
    (hsite : q.callSites[number]? = some a.frames)
    (hrequests : q.requests = p.requests)
    (herase : q.parked = p.parked.erase a.key)
    (hthreads : q.threads = p.threads) :
    Matched (requests ++ [a]) completions
      (q.join ⟨a.thread, a.request, number⟩ completion) := by
  have hmem := ((h.parked a.key completion).mp hparked).1
  constructor
  · intro b hb hmissing
    rw [callSites_join, requests_join, hrequests]
    rcases List.mem_append.mp hb with hb | hb
    · rcases h.waiting b hb hmissing with ⟨place, htrace, hget⟩
      exact ⟨place, getElem?_of_prefix hsites htrace, hget⟩
    · rw [List.mem_singleton.mp hb] at hmissing
      exact absurd (List.mem_map_of_mem hmem) hmissing
  · intro key hget
    rw [requests_join, hrequests] at hget
    rcases h.unanswered key hget with ⟨hmissing, b, hb, hkey⟩
    exact ⟨hmissing, b, List.mem_append_left _ hb, hkey⟩
  · intro key done
    rw [parked_join, herase, OrderedMap.get?_erase]
    by_cases hkey : key = a.key
    · simp [hkey]
    · simp [hkey, h.parked]
  · intro t
    have hone := filter_eq_singleton hcompletions hmem
    have hpairs : pairs (requests ++ [a]) completions =
        pairs requests completions ++ [(a, completion)] := by
      simp only at hone
      rw [pairs_append_request, hone]
      rfl
    have hjoin := activities_join hsite completion t
    rw [activities_of_threads_eq hsites hthreads (h.frames t)] at hjoin
    exact perm_stored_append (h.stored t) (List.Perm.of_eq hpairs) hjoin

theorem Matched.request_waits (h : Matched requests completions p) {a : Asked}
    {number : Nat} (hnew : a.key ∉ requests.map Asked.key)
    (hparked : p.parked.get? a.key = none)
    (hsites : p.callSites <+: q.callSites)
    (hsite : q.callSites[number]? = some a.frames)
    (hrequests :
      q.requests = p.requests.insert a.key ⟨a.thread, a.request, number⟩)
    (hsame : q.parked = p.parked) (hthreads : q.threads = p.threads) :
    Matched (requests ++ [a]) completions q := by
  have hmissing : a.key ∉ completions.map Prod.fst := by
    intro hmem
    rcases List.mem_map.mp hmem with ⟨⟨key, completion⟩, hpair, hkey⟩
    simp only at hkey
    subst hkey
    rw [(h.parked a.key completion).mpr ⟨hpair, hnew⟩] at hparked
    cases hparked
  constructor
  · intro b hb hunmet
    rw [hrequests, OrderedMap.get?_insert]
    rcases List.mem_append.mp hb with hb | hb
    · rcases h.waiting b hb hunmet with ⟨place, htrace, hget⟩
      have hne : b.key ≠ a.key := by
        intro hkey
        exact hnew (hkey ▸ List.mem_map_of_mem hb)
      rw [if_neg hne]
      exact ⟨place, getElem?_of_prefix hsites htrace, hget⟩
    · rw [List.mem_singleton.mp hb]
      exact ⟨number, hsite, if_pos rfl⟩
  · intro key hget
    rw [hrequests, OrderedMap.get?_insert] at hget
    by_cases hkey : key = a.key
    · rw [hkey]
      exact ⟨hmissing, a, List.mem_append_right _ (List.mem_singleton_self a),
        rfl⟩
    · rw [if_neg hkey] at hget
      rcases h.unanswered key hget with ⟨hunmet, b, hb, hbkey⟩
      exact ⟨hunmet, b, List.mem_append_left _ hb, hbkey⟩
  · intro key done
    rw [hsame, h.parked, not_mem_map_append]
    constructor
    · intro hmem
      rcases hmem with ⟨hdone, hkey⟩
      refine ⟨hdone, hkey, ?_⟩
      intro hlast
      exact hmissing (hlast ▸ List.mem_map_of_mem hdone)
    · intro hmem
      rcases hmem with ⟨hdone, hkey, _⟩
      exact ⟨hdone, hkey⟩
  · intro t
    rw [pairs_append_request, filter_eq_nil_of_not_mem hmissing, List.map_nil,
      List.append_nil, activities_of_threads_eq hsites hthreads (h.frames t)]
    exact h.stored t

theorem Matched.enqueue (h : Matched requests completions p) {a : Asked}
    (hnew : a.key ∉ requests.map Asked.key)
    (hcompletions : (completions.map Prod.fst).Nodup) :
    Matched (requests ++ [a]) completions
      (p.enqueue a.thread a.frames a.request) := by
  rcases p.enqueue_eq a.thread a.frames a.request with
    ⟨sites, number, hsites, hsite, heq⟩
  rw [heq]
  split
  · next completion hparked =>
    exact h.request_met hcompletions hparked hsites hsite rfl rfl rfl
  · next hparked =>
    exact h.request_waits hnew hparked hsites hsite rfl rfl rfl

theorem Matched.completion_met (h : Matched requests completions p)
    {key : RequestKey} {pending : Pending} (completion : Completion)
    (hrequests : (requests.map Asked.key).Nodup)
    (hpending : p.requests.get? key = some pending) :
    Matched requests (completions ++ [(key, completion)])
      (join { p with requests := p.requests.erase key } pending
        completion) := by
  have hwaits : p.requests.get? key ≠ none := by
    rw [hpending]
    exact Option.some_ne_none pending
  rcases h.unanswered key hwaits with ⟨hmissing, a, ha, rfl⟩
  rcases h.waiting a ha hmissing with ⟨number, hsite, hget⟩
  rw [hpending, Option.some_inj] at hget
  subst hget
  constructor
  · intro b hb hunmet
    rcases not_mem_map_append.mp hunmet with ⟨hunmet, hlast⟩
    rw [callSites_join, requests_join, OrderedMap.get?_erase, if_neg hlast]
    exact h.waiting b hb hunmet
  · intro other hget
    rw [requests_join, OrderedMap.get?_erase] at hget
    by_cases hother : other = a.key
    · exact absurd (if_pos hother) hget
    · rw [if_neg hother] at hget
      rcases h.unanswered other hget with ⟨hunmet, hasked⟩
      exact ⟨not_mem_map_append.mpr ⟨hunmet, hother⟩, hasked⟩
  · intro other done
    rw [parked_join, h.parked, List.mem_append, List.mem_singleton]
    constructor
    · intro hmem
      rcases hmem with ⟨hdone, hother⟩
      exact ⟨Or.inl hdone, hother⟩
    · intro hmem
      rcases hmem with ⟨hdone | hdone, hother⟩
      · exact ⟨hdone, hother⟩
      · cases hdone
        exact absurd (List.mem_map_of_mem ha) hother
  · intro t
    have hone := filter_eq_singleton hrequests ha
    have hpairs := pairs_append_completion requests completions
      (a.key, completion)
    rw [hone] at hpairs
    have hjoin := activities_join
      (p := { p with requests := p.requests.erase a.key }) hsite completion t
    exact perm_stored_append (h.stored t) hpairs hjoin

theorem Matched.completion_parked (h : Matched requests completions p)
    {key : RequestKey} (completion : Completion)
    (hnew : key ∉ completions.map Prod.fst)
    (hpending : p.requests.get? key = none) :
    Matched requests (completions ++ [(key, completion)])
      { p with parked := p.parked.insert key completion } := by
  have hnone : key ∉ requests.map Asked.key := by
    intro hmem
    rcases List.mem_map.mp hmem with ⟨a, ha, rfl⟩
    rcases h.waiting a ha hnew with ⟨number, _, hget⟩
    rw [hpending] at hget
    cases hget
  constructor
  · intro b hb hunmet
    exact h.waiting b hb (not_mem_map_append.mp hunmet).1
  · intro other hget
    rcases h.unanswered other hget with ⟨hunmet, a, ha, rfl⟩
    refine ⟨not_mem_map_append.mpr ⟨hunmet, ?_⟩, a, ha, rfl⟩
    intro hkey
    change a.key = key at hkey
    exact hnone (hkey ▸ List.mem_map_of_mem ha)
  · intro other done
    rw [OrderedMap.get?_insert, List.mem_append, List.mem_singleton]
    by_cases hother : other = key
    · subst hother
      rw [if_pos rfl, Option.some_inj]
      constructor
      · intro heq
        subst heq
        exact ⟨Or.inr rfl, hnone⟩
      · intro hmem
        rcases hmem with ⟨hdone | hdone, _⟩
        · exact absurd (List.mem_map_of_mem hdone) hnew
        · cases hdone
          rfl
    · rw [if_neg hother, h.parked]
      constructor
      · intro hmem
        rcases hmem with ⟨hdone, hasked⟩
        exact ⟨Or.inl hdone, hasked⟩
      · intro hmem
        rcases hmem with ⟨hdone | hdone, hasked⟩
        · exact ⟨hdone, hasked⟩
        · cases hdone
          exact absurd rfl hother
  · intro t
    have hpairs := pairs_append_completion requests completions
      (key, completion)
    rw [filter_eq_nil_of_not_mem hnone, List.map_nil, List.append_nil] at hpairs
    exact (h.stored t).trans (hpairs.filterMap (activityOf t)).symm

theorem Matched.complete (h : Matched requests completions p) {key : RequestKey}
    (completion : Completion) (hnew : key ∉ completions.map Prod.fst)
    (hrequests : (requests.map Asked.key).Nodup) :
    Matched requests (completions ++ [(key, completion)])
      (p.complete key completion) := by
  unfold PerformanceData.complete
  split
  · next pending hpending =>
    exact h.completion_met completion hrequests hpending
  · next hpending =>
    exact h.completion_parked completion hnew hpending

end Matched

/-! ## Runs -/

theorem matched_empty : Matched [] [] (∅ : PerformanceData) := by
  constructor
  · intro a ha
    cases ha
  · intro key hget
    exact absurd rfl hget
  · intro key completion
    constructor
    · intro hget
      cases hget
    · intro hparked
      cases hparked.1
  · intro t
    exact List.Perm.refl []

theorem activities_keep (p : PerformanceData) (blob : Blob) (t : ThreadName) :
    (p.keep blob).activities t = p.activities t := by
  unfold keep
  rw [activities_changeThread]
  split
  · rfl
  · rfl

theorem nodup_of_append {α κ : Type} {f : α → κ} {items more : List α}
    (h : ((items ++ more).map f).Nodup) : (items.map f).Nodup := by
  rw [List.map_append] at h
  exact (List.nodup_append.mp h).1

theorem not_mem_of_append {α κ : Type} {f : α → κ} {items : List α} {a : α}
    (h : ((items ++ [a]).map f).Nodup) : f a ∉ items.map f := by
  rw [List.map_append, List.nodup_append] at h
  intro hmem
  exact h.2.2 (f a) hmem (f a) (List.mem_singleton_self _) rfl

theorem Matched.step {requests : List Asked}
    {completions : List (RequestKey × Completion)} {name : ThreadName}
    {d : Data} {p q : PerformanceData} {record : Record}
    (h : Matched requests completions p) (htells : Tells name d p record q)
    (hrequests : ((requests ++ (askedBy name d record).toList).map
      Asked.key).Nodup)
    (hcompletions : ((completions ++ record.completion?.toList).map
      Prod.fst).Nodup) :
    Matched (requests ++ (askedBy name d record).toList)
      (completions ++ record.completion?.toList) q := by
  cases htells with
  | @request r trace htrace =>
      have hasked : askedBy name d (.request r) = some ⟨name, trace, r⟩ := by
        simp [askedBy, Record.request?, htrace]
      rw [hasked] at hrequests ⊢
      have hnone : (Record.request r).completion?.toList = [] := rfl
      rw [hnone, List.append_nil] at hcompletions ⊢
      exact h.enqueue (not_mem_of_append hrequests) hcompletions
  | @completion _ key completion hrecord =>
      have hasked : askedBy name d record = none := by
        unfold askedBy
        rw [request?_of_completion? hrecord]
        rfl
      rw [hrecord] at hcompletions ⊢
      rw [hasked, Option.toList_none, List.append_nil] at hrequests ⊢
      exact h.complete completion (not_mem_of_append hcompletions) hrequests
  | other hrequest hrecord hsampled =>
      have hasked : askedBy name d record = none := by
        unfold askedBy
        rw [hrequest]
        rfl
      rw [hasked, hrecord, Option.toList_none, Option.toList_none,
        List.append_nil, List.append_nil]
      apply h.congr hsampled.callSites hsampled.requests hsampled.parked
      intro t
      exact hsampled.activities_eq (h.frames t)

theorem matched_receive (arrivals : List Blob)
    (hrequests : ((asked (accepted ∅ arrivals)).map Asked.key).Nodup)
    (hcompletions : ((completed (accepted ∅ arrivals)).map Prod.fst).Nodup) :
    Matched (asked (accepted ∅ arrivals)) (completed (accepted ∅ arrivals))
      (receive ∅ arrivals) := by
  revert hrequests hcompletions
  apply run_induction (motive := fun reports p =>
    ((asked reports).map Asked.key).Nodup →
      ((completed reports).map Prod.fst).Nodup →
        Matched (asked reports) (completed reports) p)
  · intro _ _
    exact matched_empty
  · intro reports p blob stackTraces h
    have hasked : asked (reports ++ [⟨blob, ⟨[], stackTraces⟩⟩]) =
        asked reports := by
      simp [asked]
    have hcompleted : completed (reports ++ [⟨blob, ⟨[], stackTraces⟩⟩]) =
        completed reports := by
      simp [completed]
    rw [hasked, hcompleted]
    intro hrequests hcompletions
    exact (h hrequests hcompletions).congr rfl rfl rfl (p.activities_keep blob)
  · intro reports blob d p record q htells h
    rw [asked_push, completed_push]
    intro hrequests hcompletions
    have hmatched := h (nodup_of_append hrequests)
      (nodup_of_append hcompletions)
    exact hmatched.step htells hrequests hcompletions

def uncompleted (requests : List Asked)
    (completions : List (RequestKey × Completion)) : List Asked :=
  requests.filter fun a => a.key ∉ completions.map Prod.fst

theorem uncompleted_perm {requests requests' : List Asked}
    {completions completions' : List (RequestKey × Completion)}
    (hrequests : requests.Perm requests')
    (hcompletions : completions.Perm completions') :
    (uncompleted requests completions).Perm
      (uncompleted requests' completions') := by
  have hsame : ∀ a : Asked, decide (a.key ∉ completions.map Prod.fst) =
      decide (a.key ∉ completions'.map Prod.fst) := by
    intro a
    simp only [(hcompletions.map Prod.fst).mem_iff]
  unfold uncompleted
  simp only [hsame]
  exact hrequests.filter _

theorem Matched.pendingRequests_eq {requests : List Asked}
    {completions : List (RequestKey × Completion)} {p : PerformanceData}
    (h : Matched requests completions p)
    (hrequests : (requests.map Asked.key).Nodup) :
    p.pendingRequests = (uncompleted requests completions).length := by
  have hkeys : p.requests.keys.Perm
      ((uncompleted requests completions).map Asked.key) := by
    apply (List.perm_ext_iff_of_nodup p.requests.nodup_keys
      (hrequests.sublist (List.filter_sublist.map _))).mpr
    intro key
    rw [OrderedMap.mem_keys_iff, List.mem_map]
    constructor
    · intro hmem
      rcases hmem with ⟨pending, hget⟩
      have hwaits : p.requests.get? key ≠ none := by
        rw [hget]
        exact Option.some_ne_none pending
      rcases h.unanswered key hwaits with ⟨hmissing, a, ha, rfl⟩
      exact ⟨a, List.mem_filter.mpr ⟨ha, decide_eq_true hmissing⟩, rfl⟩
    · intro hmem
      rcases hmem with ⟨a, ha, rfl⟩
      rcases List.mem_filter.mp ha with ⟨ha, hmissing⟩
      rcases h.waiting a ha (of_decide_eq_true hmissing) with ⟨_, _, hget⟩
      exact ⟨_, hget⟩
  have hlength := hkeys.length_eq
  rw [List.length_map] at hlength
  rw [← hlength]
  unfold pendingRequests OrderedMap.size OrderedMap.keys
  rw [List.length_map]

/-- However requests and completions are spread over blobs and threads, and in
whichever order they arrive: what is stored are the pairs, and what waits are
the requests without a completion. So the same requests and completions in
another order leave the same behind. -/
theorem pairing_in_any_order (arrivals : List Blob)
    (hrequests : ((asked (accepted ∅ arrivals)).map Asked.key).Nodup)
    (hcompletions : ((completed (accepted ∅ arrivals)).map Prod.fst).Nodup) :
    (∀ t, ((receive ∅ arrivals).activities t).Perm
      ((pairs (asked (accepted ∅ arrivals))
        (completed (accepted ∅ arrivals))).filterMap (activityOf t))) ∧
    (receive ∅ arrivals).pendingRequests =
      (uncompleted (asked (accepted ∅ arrivals))
        (completed (accepted ∅ arrivals))).length ∧
    ∀ others : List Blob,
      (asked (accepted ∅ others)).Perm (asked (accepted ∅ arrivals)) →
      (completed (accepted ∅ others)).Perm (completed (accepted ∅ arrivals)) →
        (∀ t, ((receive ∅ others).activities t).Perm
          ((receive ∅ arrivals).activities t)) ∧
        (receive ∅ others).pendingRequests =
          (receive ∅ arrivals).pendingRequests := by
  have hmatched := matched_receive arrivals hrequests hcompletions
  have hpending := hmatched.pendingRequests_eq hrequests
  refine ⟨hmatched.stored, hpending, ?_⟩
  intro others hasked hcompleted
  have hothers : ((asked (accepted ∅ others)).map Asked.key).Nodup :=
    (hasked.map _).nodup_iff.mpr hrequests
  have hmore := matched_receive others hothers
    ((hcompleted.map _).nodup_iff.mpr hcompletions)
  constructor
  · intro t
    have hpairs := (pairs_perm hasked hcompleted).filterMap (activityOf t)
    exact ((hmore.stored t).trans hpairs).trans (hmatched.stored t).symm
  · rw [hmore.pendingRequests_eq hothers, hpending]
    exact (uncompleted_perm hasked hcompleted).length_eq

def scattered : List Blob :=
  let header (pid : UInt64) : BlobHeader :=
    ⟨0, 0, collectorId, .ofName ⟨"a", pid, none, none⟩, ⟨0, 1⟩⟩
  [Data.toBlob ⟨[.completedXfer ⟨1, 2, 3, 20, 30, 64, .hostToDevice, .pageable,
      .device, false⟩], []⟩ (header 1),
    Data.toBlob ⟨[.request ⟨.memoryCopy, 10, 1, 2, 3, 0⟩,
      .request ⟨.executeKernel, 11, 1, 2, 4, 2⟩,
      .request ⟨.executeKernel, 12, 1, 2, 5, 0⟩], [7, 0, 8, 9, 0]⟩ (header 2),
    Data.toBlob ⟨[.completedExec ⟨1, 2, 4, 40, 50, "f", ⟨1, 1, 1⟩, ⟨8, 8, 1⟩,
      .none, 16, 0, 0, 0⟩], []⟩ (header 1)]

theorem pairing_in_any_order_scattered :
    ((asked (accepted ∅ scattered)).map Asked.key).Nodup ∧
    ((completed (accepted ∅ scattered)).map Prod.fst).Nodup ∧
    (receive ∅ scattered).pendingRequests = 1 ∧
    ∀ t, ((receive ∅ scattered.reverse).activities t).Perm
      ((receive ∅ scattered).activities t) := by
  have hrequests : ((asked (accepted ∅ scattered)).map Asked.key).Nodup := by
    decide +kernel
  have hcompletions :
      ((completed (accepted ∅ scattered)).map Prod.fst).Nodup := by
    decide +kernel
  rcases pairing_in_any_order scattered hrequests hcompletions with
    ⟨_, hpending, hothers⟩
  refine ⟨hrequests, hcompletions, ?_, ?_⟩
  · rw [hpending]
    decide +kernel
  · exact (hothers scattered.reverse (by decide +kernel)
      (by decide +kernel)).1

end PerformanceData
end Cuda
end CudaProfile
