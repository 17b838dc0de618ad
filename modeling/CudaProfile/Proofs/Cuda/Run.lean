import CudaProfile.Cuda.PerformanceData
import CudaProfile.Proofs.Order.OrderedMap
/-!
# Runs of performance data

Blobs arrive one after the other, and some are refused. The reports are the
blobs that counted, with what they hold. Whatever relates the reports to the
data after them is shown record by record: a blob first counts without its
records, and then each of them is a request, a completion, or something that
has to do with neither.
-/

namespace CudaProfile
namespace Cuda

open Std Lexicographic

/-! ## Reports -/

/-- A blob that counted, and the data in it. -/
structure Report where
  blob : Blob
  data : Data

def Report.thread (r : Report) : ThreadName :=
  r.blob.thread

namespace PerformanceData

/-- The data after blobs have arrived, whether they were accepted or refused. -/
def receive (p : PerformanceData) (arrivals : List Blob) : PerformanceData :=
  arrivals.foldl (fun p blob => (p.apply blob).state) p

def report? (p : PerformanceData) (blob : Blob) : Option Report :=
  match Data.ofBlob blob, (p.apply blob).refusal with
  | .ok data, none => some ⟨blob, data⟩
  | _, _ => none

def accepted : PerformanceData → List Blob → List Report
  | _, [] => []
  | p, blob :: rest =>
      (p.report? blob).toList ++ accepted (p.apply blob).state rest

theorem receive_append (p : PerformanceData) (before after : List Blob) :
    p.receive (before ++ after) = (p.receive before).receive after :=
  List.foldl_append

theorem accepted_append (p : PerformanceData) (before after : List Blob) :
    p.accepted (before ++ after) =
      p.accepted before ++ (p.receive before).accepted after := by
  induction before generalizing p with
  | nil =>
      rfl
  | cons blob rest ih =>
      change (p.report? blob).toList ++ accepted _ (rest ++ after) = _
      rw [ih, ← List.append_assoc]
      rfl

theorem ofBlob_of_report? {p : PerformanceData} {blob : Blob} {report : Report}
    (h : p.report? blob = some report) :
    report.blob = blob ∧ Data.ofBlob report.blob = .ok report.data := by
  unfold report? at h
  split at h
  · next data _ hdata _ =>
    cases h
    exact ⟨rfl, hdata⟩
  · cases h

theorem blob_mem_of_mem_accepted {p : PerformanceData} {arrivals : List Blob}
    {report : Report} (h : report ∈ p.accepted arrivals) :
    report.blob ∈ arrivals := by
  induction arrivals generalizing p with
  | nil =>
      cases h
  | cons blob rest ih =>
      rcases List.mem_append.mp h with hfirst | hlater
      · rw [(ofBlob_of_report? (Option.mem_toList.mp hfirst)).1]
        exact List.mem_cons_self
      · exact List.mem_cons_of_mem blob (ih hlater)

theorem ofBlob_of_mem_accepted {p : PerformanceData} {arrivals : List Blob}
    {report : Report} (h : report ∈ p.accepted arrivals) :
    Data.ofBlob report.blob = .ok report.data := by
  induction arrivals generalizing p with
  | nil =>
      cases h
  | cons blob rest ih =>
      rcases List.mem_append.mp h with hfirst | hlater
      · exact (ofBlob_of_report? (Option.mem_toList.mp hfirst)).2
      · exact ih hlater

/-! ## Requests and completions among records -/

end PerformanceData

def Record.completion? : Record → Option (RequestKey × Completion)
  | .completedExec e => some (e.key, .exec e)
  | .completedXfer x => some (x.key, .xfer x)
  | _ => none

def Record.request? : Record → Option Request
  | .request r => some r
  | _ => none

theorem request?_of_completion? {r : Record}
    {completed : RequestKey × Completion} (h : r.completion? = some completed) :
    r.request? = none := by
  cases r with
  | request =>
      cases h
  | _ =>
      rfl

def Data.push (d : Data) (r : Record) : Data :=
  ⟨d.records ++ [r], d.stackTraces⟩

namespace PerformanceData

/-! ## What operations leave alone -/

theorem thread_congr {p q : PerformanceData} (h : q.threads = p.threads)
    (t : ThreadName) : q.thread t = p.thread t := by
  unfold thread
  rw [h]

theorem thread_changeThread (p : PerformanceData) (name other : ThreadName)
    (f : ThreadData → ThreadData) :
    (p.changeThread name f).thread other =
      if other = name then f (p.thread name) else p.thread other := by
  unfold thread changeThread
  rw [OrderedMap.get?_alter]
  split <;> rfl

theorem mem_keys_changeThread {p : PerformanceData} {name other : ThreadName}
    {f : ThreadData → ThreadData} :
    other ∈ (p.changeThread name f).threads.keys ↔
      other = name ∨ other ∈ p.threads.keys := by
  rw [OrderedMap.mem_keys_iff, OrderedMap.mem_keys_iff]
  unfold changeThread
  rw [OrderedMap.get?_alter]
  by_cases h : other = name
  · simp [h]
  · simp [h]

/-- Only the samples of a thread may differ, besides what is known of devices
and counters. -/
structure Sampled (name : ThreadName) (p q : PerformanceData) : Prop where
  callSites : q.callSites = p.callSites
  requests : q.requests = p.requests
  parked : q.parked = p.parked
  owners : q.owners = p.owners
  blobs : ∀ t, q.blobs t = p.blobs t
  kernels : ∀ t, (q.thread t).kernels = (p.thread t).kernels
  transfers : ∀ t, (q.thread t).transfers = (p.thread t).transfers
  keys : ∀ t, t ∈ q.threads.keys → t = name ∨ t ∈ p.threads.keys
  keeps : ∀ t, t ∈ p.threads.keys → t ∈ q.threads.keys

theorem sampled_of_threads_eq {name : ThreadName} {p q : PerformanceData}
    (hsites : q.callSites = p.callSites) (hrequests : q.requests = p.requests)
    (hparked : q.parked = p.parked) (howners : q.owners = p.owners)
    (hthreads : q.threads = p.threads) : Sampled name p q := by
  have hthread := thread_congr hthreads
  constructor
  · exact hsites
  · exact hrequests
  · exact hparked
  · exact howners
  · intro t
    exact congrArg ThreadData.blobs (hthread t)
  · intro t
    rw [hthread]
  · intro t
    rw [hthread]
  · intro t ht
    exact Or.inr (hthreads ▸ ht)
  · intro t ht
    exact hthreads ▸ ht

theorem sampled_changeThread {name : ThreadName} (p : PerformanceData)
    {f : ThreadData → ThreadData} (hblobs : ∀ data, (f data).blobs = data.blobs)
    (hkernels : ∀ data, (f data).kernels = data.kernels)
    (htransfers : ∀ data, (f data).transfers = data.transfers) :
    Sampled name p (p.changeThread name f) := by
  constructor
  · rfl
  · rfl
  · rfl
  · rfl
  · intro t
    unfold blobs
    rw [thread_changeThread]
    split
    · next h =>
      rw [hblobs, h]
    · rfl
  · intro t
    rw [thread_changeThread]
    split
    · next h =>
      rw [hkernels, h]
    · rfl
  · intro t
    rw [thread_changeThread]
    split
    · next h =>
      rw [htransfers, h]
    · rfl
  · intro t ht
    exact mem_keys_changeThread.mp ht
  · intro t ht
    exact mem_keys_changeThread.mpr (Or.inr ht)

/-! ## Joining -/

section Joining

variable (p : PerformanceData) (pending : Pending) (completion : Completion)

@[simp] theorem callSites_join :
    (p.join pending completion).callSites = p.callSites := by
  unfold join
  split <;> rfl

@[simp] theorem requests_join :
    (p.join pending completion).requests = p.requests := by
  unfold join
  split <;> rfl

@[simp] theorem parked_join :
    (p.join pending completion).parked = p.parked := by
  unfold join
  split <;> rfl

@[simp] theorem owners_join :
    (p.join pending completion).owners = p.owners := by
  unfold join
  split <;> rfl

@[simp] theorem counters_join :
    (p.join pending completion).counters = p.counters := by
  unfold join
  split <;> rfl

theorem blobs_join (t : ThreadName) :
    (p.join pending completion).blobs t = p.blobs t := by
  unfold join blobs
  split
  · rw [thread_changeThread]
    split
    · next h =>
      rw [h]
    · rfl
  · rw [thread_changeThread]
    split
    · next h =>
      rw [h]
    · rfl
  · rfl
  · rfl

theorem mem_keys_join {t : ThreadName}
    (h : t ∈ (p.join pending completion).threads.keys) :
    t = pending.thread ∨ t ∈ p.threads.keys := by
  unfold join at h
  split at h
  · exact mem_keys_changeThread.mp h
  · exact mem_keys_changeThread.mp h
  · exact Or.inr h
  · exact Or.inr h

theorem mem_keys_join_of_mem {t : ThreadName} (h : t ∈ p.threads.keys) :
    t ∈ (p.join pending completion).threads.keys := by
  unfold join
  split
  · exact mem_keys_changeThread.mpr (Or.inr h)
  · exact mem_keys_changeThread.mpr (Or.inr h)
  · exact h
  · exact h

end Joining

/-! ## Requests and completions -/

theorem internCallSite_eq (p : PerformanceData) (trace : List Address) :
    ∃ sites number, p.internCallSite trace =
        ({ p with callSites := sites }, number) ∧
      p.callSites <+: sites ∧ sites[number]? = some trace := by
  unfold internCallSite
  split
  · next number hfound =>
    rcases List.findIdx?_eq_some_iff_getElem.mp hfound with ⟨hlt, htrace, _⟩
    refine ⟨p.callSites, number, rfl, List.prefix_refl _, ?_⟩
    rw [List.getElem?_eq_getElem hlt, of_decide_eq_true htrace]
  · refine ⟨p.callSites ++ [trace], p.callSites.length, rfl,
      List.prefix_append _ _, ?_⟩
    simp

theorem enqueue_eq (p : PerformanceData) (name : ThreadName)
    (trace : List Address) (r : Request) :
    ∃ sites number, p.callSites <+: sites ∧ sites[number]? = some trace ∧
      p.enqueue name trace r =
        match p.parked.get? r.key with
        | some completion =>
            join
              { p with
                callSites := sites
                owners := p.owners.insert r.key name
                parked := p.parked.erase r.key }
              ⟨name, r, number⟩ completion
        | none =>
            { p with
              callSites := sites
              owners := p.owners.insert r.key name
              requests := p.requests.insert r.key ⟨name, r, number⟩ } := by
  rcases p.internCallSite_eq trace with ⟨sites, number, heq, hsites, htrace⟩
  refine ⟨sites, number, hsites, htrace, ?_⟩
  cases hparked : p.parked.get? r.key with
  | none =>
      simp [enqueue, heq, hparked]
  | some completion =>
      simp [enqueue, heq, hparked]

theorem counters_enqueue (p : PerformanceData) (name : ThreadName)
    (trace : List Address) (r : Request) :
    (p.enqueue name trace r).counters = p.counters := by
  rcases p.enqueue_eq name trace r with ⟨sites, number, _, _, heq⟩
  rw [heq]
  split
  · exact counters_join _ _ _
  · rfl

theorem counters_complete (p : PerformanceData) (key : RequestKey)
    (completion : Completion) :
    (p.complete key completion).counters = p.counters := by
  unfold complete
  split
  · exact counters_join _ _ _
  · rfl

/-! ## Records -/

/-- What a well-formed record does: a request is made, a completion comes in, or
neither. -/
inductive Tells (name : ThreadName) (d : Data) (p : PerformanceData) :
    Record → PerformanceData → Prop
  | request {r : Request} {trace : List Address}
      (htrace : d.stackTrace? r.callSite = some trace) :
      Tells name d p (.request r) (p.enqueue name trace r)
  | completion {record : Record} {key : RequestKey} {completion : Completion}
      (hrecord : record.completion? = some (key, completion)) :
      Tells name d p record (p.complete key completion)
  | other {record : Record} {q : PerformanceData}
      (hrequest : record.request? = none) (hrecord : record.completion? = none)
      (hsampled : Sampled name p q) : Tells name d p record q

theorem applyRecord_done {name : ThreadName} {d : Data} {p : PerformanceData}
    {record : Record} (h : check d p.counters.length record = .ok ()) :
    ∃ q, applyRecord name d p record = .done q ∧ Tells name d p record q ∧
      q.counters.length = countersAfter p.counters.length record := by
  cases record with
  | contextInfo i =>
      refine ⟨_, rfl, .other rfl rfl ?_, rfl⟩
      exact sampled_of_threads_eq rfl rfl rfl rfl rfl
  | deviceInfo i =>
      refine ⟨_, rfl, .other rfl rfl ?_, rfl⟩
      exact sampled_of_threads_eq rfl rfl rfl rfl rfl
  | samplingConfig c =>
      refine ⟨_, rfl, .other rfl rfl ?_, ?_⟩
      · split
        · exact sampled_of_threads_eq rfl rfl rfl rfl rfl
        · exact sampled_of_threads_eq rfl rfl rfl rfl rfl
      · cases hcounters : p.counters with
        | nil =>
            simp [countersAfter]
        | cons counter rest =>
            simp [countersAfter, hcounters]
  | request r =>
      cases htrace : d.stackTrace? r.callSite with
      | none =>
          simp [check, traceOf, htrace, Except.map] at h
      | some trace =>
          refine ⟨p.enqueue name trace r, ?_, .request htrace, ?_⟩
          · simp [applyRecord, traceOf, htrace, Except.map, Outcome.orElse]
          · rw [counters_enqueue]
            rfl
  | completedExec e =>
      refine ⟨_, rfl, .completion rfl, ?_⟩
      rw [counters_complete]
      rfl
  | completedXfer x =>
      refine ⟨_, rfl, .completion rfl, ?_⟩
      rw [counters_complete]
      rfl
  | overflowSamples s =>
      refine ⟨_, ?_, .other rfl rfl (sampled_changeThread p (f := fun data =>
        { data with overflow := addOverflow p.counters s data.overflow })
        (fun _ => rfl) (fun _ => rfl) fun _ => rfl), rfl⟩
      simp only [applyRecord]
      rw [h]
      rfl
  | periodicSamples s =>
      refine ⟨_, ?_, .other rfl rfl (sampled_changeThread p (f := fun data =>
        { data with periodic := data.periodic.insert s.time s.counts })
        (fun _ => rfl) (fun _ => rfl) fun _ => rfl), rfl⟩
      simp only [applyRecord]
      rw [h]
      rfl
  | loadedModule m =>
      refine ⟨_, rfl, .other rfl rfl ?_, rfl⟩
      exact sampled_of_threads_eq rfl rfl rfl rfl rfl
  | unloadedModule m =>
      refine ⟨_, rfl, .other rfl rfl ?_, rfl⟩
      exact sampled_of_threads_eq rfl rfl rfl rfl rfl
  | resolvedFunction f =>
      refine ⟨_, rfl, .other rfl rfl ?_, rfl⟩
      exact sampled_of_threads_eq rfl rfl rfl rfl rfl

structure Counts (name : ThreadName) (d : Data) (p : PerformanceData)
    (record : Record) (q : PerformanceData) : Prop where
  checked : check d p.counters.length record = .ok ()
  applied : applyRecord name d p record = .done q

theorem Counts.tells {name : ThreadName} {d : Data} {p q : PerformanceData}
    {record : Record} (h : Counts name d p record q) :
    Tells name d p record q := by
  have hdone : ∃ q, applyRecord name d p record = .done q ∧
      Tells name d p record q ∧
        q.counters.length = countersAfter p.counters.length record :=
    applyRecord_done h.checked
  rcases hdone with ⟨next, happly, htells, _⟩
  cases h.applied.symm.trans happly
  exact htells

theorem Counts.withRecords {name : ThreadName} {d : Data}
    {p q : PerformanceData} {record : Record} (h : Counts name d p record q)
    (records : List Record) :
    Counts name ⟨records, d.stackTraces⟩ p record q := by
  rcases h with ⟨hchecked, happlied⟩
  cases record with
  | _ =>
      exact ⟨hchecked, happlied⟩

/-! ## Runs -/

/-- The records of a blob, one after the other: none is refused, and what every
record keeps is kept by all of them. -/
theorem forEach_of_counts {name : ThreadName} {d : Data}
    {motive : List Record → PerformanceData → Prop}
    (step : ∀ before p record q, Counts name d p record q →
      motive before p → motive (before ++ [record]) q)
    {records before : List Record} {p : PerformanceData}
    (hcheck : checkAll d p.counters.length records = .ok ())
    (h : motive before p) :
    ∃ q, Outcome.forEach (applyRecord name d) p records = .done q ∧
      motive (before ++ records) q := by
  induction records generalizing before p with
  | nil =>
      refine ⟨p, rfl, ?_⟩
      rw [List.append_nil]
      exact h
  | cons record rest ih =>
      unfold checkAll at hcheck
      split at hcheck
      · next hrecord =>
        have hdone : ∃ q, applyRecord name d p record = .done q ∧
            Tells name d p record q ∧
              q.counters.length = countersAfter p.counters.length record :=
          applyRecord_done hrecord
        rcases hdone with ⟨q, happly, _, hcounters⟩
        rw [← hcounters] at hcheck
        rcases ih hcheck (step before p record q ⟨hrecord, happly⟩ h) with
          ⟨final, hrest, hfinal⟩
        refine ⟨final, ?_, ?_⟩
        · rw [Outcome.forEach, happly]
          exact hrest
        · rw [List.append_assoc] at hfinal
          exact hfinal
      · cases hcheck

theorem forEach_applyRecord {name : ThreadName} {d : Data}
    {motive : List Record → PerformanceData → Prop}
    (step : ∀ before p record q, Tells name d p record q →
      motive before p → motive (before ++ [record]) q)
    {records before : List Record} {p : PerformanceData}
    (hcheck : checkAll d p.counters.length records = .ok ())
    (h : motive before p) :
    ∃ q, Outcome.forEach (applyRecord name d) p records = .done q ∧
      motive (before ++ records) q :=
  forEach_of_counts
    (fun before p record q hcounts => step before p record q hcounts.tells)
    hcheck h

theorem apply_cases {motive : Data → PerformanceData → Prop}
    {p : PerformanceData} {blob : Blob}
    (keep : ∀ stackTraces, motive ⟨[], stackTraces⟩ (p.keep blob))
    (step : ∀ d p record q, Counts blob.thread d p record q →
      motive d p → motive (d.push record) q) :
    (p.report? blob = none ∧ (p.apply blob).state = p) ∨
      ∃ d, p.report? blob = some ⟨blob, d⟩ ∧ motive d (p.apply blob).state := by
  unfold report? apply
  cases hblob : Data.ofBlob blob with
  | error error =>
      exact Or.inl ⟨rfl, rfl⟩
  | ok d =>
      simp only
      cases hcheck : checkAll d p.counters.length d.records with
      | error error =>
          exact Or.inl ⟨rfl, rfl⟩
      | ok _ =>
          right
          have hstep : ∀ before p record q, Counts blob.thread d p record q →
              motive ⟨before, d.stackTraces⟩ p →
              motive ⟨before ++ [record], d.stackTraces⟩ q := by
            intro before p record q hcounts
            exact step ⟨before, d.stackTraces⟩ p record q
              (hcounts.withRecords before)
          rcases forEach_of_counts
              (motive := fun records => motive ⟨records, d.stackTraces⟩)
              hstep (p := p.keep blob) hcheck (keep d.stackTraces)
            with ⟨q, heq, hq⟩
          simp only
          rw [heq]
          exact ⟨d, rfl, hq⟩

/-- What holds before any blob, of a blob without its records, and further on
with each record that counts, holds after every run. -/
theorem run_induction_of_counts {motive : List Report → PerformanceData → Prop}
    (start : motive [] ∅)
    (keep : ∀ reports p blob stackTraces, motive reports p →
      motive (reports ++ [⟨blob, ⟨[], stackTraces⟩⟩]) (p.keep blob))
    (step : ∀ reports blob d p record q, Counts blob.thread d p record q →
      motive (reports ++ [⟨blob, d⟩]) p →
      motive (reports ++ [⟨blob, d.push record⟩]) q)
    (arrivals : List Blob) :
    motive (accepted ∅ arrivals) (receive ∅ arrivals) := by
  have hrun : ∀ reports p, motive reports p →
      motive (reports ++ accepted p arrivals) (receive p arrivals) := by
    induction arrivals with
    | nil =>
        intro reports p h
        change motive (reports ++ []) p
        rw [List.append_nil]
        exact h
    | cons blob rest ih =>
        intro reports p h
        change motive (reports ++ ((p.report? blob).toList ++
          accepted (p.apply blob).state rest))
            (receive (p.apply blob).state rest)
        rw [← List.append_assoc]
        apply ih
        have hcases := apply_cases (p := p)
          (motive := fun d q => motive (reports ++ [⟨blob, d⟩]) q)
          (fun stackTraces => keep reports p blob stackTraces h)
          (fun d p record q => step reports blob d p record q)
        rcases hcases with ⟨hreport, hstate⟩ | ⟨d, hreport, hstate⟩
        · rw [hreport, hstate]
          simpa using h
        · rw [hreport]
          exact hstate
  exact hrun [] ∅ start

theorem run_induction {motive : List Report → PerformanceData → Prop}
    (start : motive [] ∅)
    (keep : ∀ reports p blob stackTraces, motive reports p →
      motive (reports ++ [⟨blob, ⟨[], stackTraces⟩⟩]) (p.keep blob))
    (step : ∀ reports blob d p record q, Tells blob.thread d p record q →
      motive (reports ++ [⟨blob, d⟩]) p →
      motive (reports ++ [⟨blob, d.push record⟩]) q)
    (arrivals : List Blob) :
    motive (accepted ∅ arrivals) (receive ∅ arrivals) :=
  run_induction_of_counts start keep
    (fun reports blob d p record q hcounts =>
      step reports blob d p record q hcounts.tells) arrivals

/-! ## Blobs and threads after a run -/

theorem blobs_keep (p : PerformanceData) (blob : Blob) (t : ThreadName) :
    (p.keep blob).blobs t =
      if blob.thread = t then p.blobs t ++ [blob] else p.blobs t := by
  unfold keep blobs
  rw [thread_changeThread]
  by_cases h : blob.thread = t
  · rw [if_pos h, if_pos h.symm, h]
  · rw [if_neg h, if_neg (Ne.symm h)]

theorem Tells.blobs_eq {name : ThreadName} {d : Data} {p q : PerformanceData}
    {record : Record} (h : Tells name d p record q) (t : ThreadName) :
    q.blobs t = p.blobs t := by
  cases h with
  | @request r trace htrace =>
      rcases p.enqueue_eq name trace r with ⟨sites, number, _, _, heq⟩
      rw [heq]
      split
      · exact blobs_join _ _ _ t
      · rfl
  | completion hrecord =>
      unfold complete
      split
      · exact blobs_join _ _ _ t
      · rfl
  | other hrequest hrecord hsampled =>
      exact hsampled.blobs t

theorem blobs_receive (arrivals : List Blob) (t : ThreadName) :
    (receive ∅ arrivals).blobs t =
      ((accepted ∅ arrivals).filter fun report => report.thread = t).map
        Report.blob := by
  apply run_induction (motive := fun reports p =>
    p.blobs t =
      (reports.filter fun report => report.thread = t).map Report.blob)
  · rfl
  · intro reports p blob stackTraces h
    rw [blobs_keep, h, List.filter_append, List.map_append]
    by_cases ht : blob.thread = t
    · simp [ht, Report.thread]
    · simp [ht, Report.thread]
  · intro reports blob d p record q htells h
    rw [htells.blobs_eq, h, List.filter_append, List.filter_append,
      List.map_append, List.map_append]
    by_cases ht : blob.thread = t
    · simp [ht, Report.thread]
    · simp [ht, Report.thread]

/-- The threads with data are those that reported, and only they make requests
that wait. -/
structure Reported (reports : List Report) (p : PerformanceData) : Prop where
  keys : ∀ t, t ∈ p.threads.keys ↔ ∃ report ∈ reports, report.thread = t
  pending : ∀ key pending, p.requests.get? key = some pending →
    ∃ report ∈ reports, report.thread = pending.thread

theorem Reported.push {reports : List Report} {blob : Blob} {d : Data}
    {p q : PerformanceData} {record : Record}
    (h : Reported (reports ++ [⟨blob, d⟩]) p)
    (hkeys : ∀ t, t ∈ q.threads.keys →
      (∃ report ∈ reports ++ [⟨blob, d⟩], report.thread = t) ∨
        t ∈ p.threads.keys)
    (hkeeps : ∀ t, t ∈ p.threads.keys → t ∈ q.threads.keys)
    (hpending : ∀ key pending, q.requests.get? key = some pending →
      ∃ report ∈ reports ++ [⟨blob, d⟩], report.thread = pending.thread) :
    Reported (reports ++ [⟨blob, d.push record⟩]) q := by
  have hsame : ∀ t, (∃ report ∈ reports ++ [⟨blob, d.push record⟩],
      report.thread = t) ↔
        ∃ report ∈ reports ++ [⟨blob, d⟩], report.thread = t := by
    intro t
    simp [Report.thread, or_and_right, exists_or]
  constructor
  · intro t
    rw [hsame]
    constructor
    · intro ht
      rcases hkeys t ht with hreport | ht
      · exact hreport
      · exact (h.keys t).mp ht
    · intro hreport
      exact hkeeps t ((h.keys t).mpr hreport)
  · intro key pending hget
    rw [hsame]
    exact hpending key pending hget

theorem Reported.push_same {reports : List Report} {blob : Blob} {d : Data}
    {p q : PerformanceData} {record : Record}
    (h : Reported (reports ++ [⟨blob, d⟩]) p) (hthreads : q.threads = p.threads)
    (hpending : ∀ key pending, q.requests.get? key = some pending →
      ∃ report ∈ reports ++ [⟨blob, d⟩], report.thread = pending.thread) :
    Reported (reports ++ [⟨blob, d.push record⟩]) q := by
  apply h.push
  · intro t ht
    rw [hthreads] at ht
    exact Or.inr ht
  · intro t ht
    rw [hthreads]
    exact ht
  · exact hpending

theorem Reported.push_join {reports : List Report} {blob : Blob} {d : Data}
    {p q : PerformanceData} {record : Record} {pending : Pending}
    (h : Reported (reports ++ [⟨blob, d⟩]) p) (hthreads : q.threads = p.threads)
    (hrequested : ∃ report ∈ reports ++ [⟨blob, d⟩],
      report.thread = pending.thread)
    (hpending : ∀ key waiting, q.requests.get? key = some waiting →
      p.requests.get? key = some waiting)
    (completion : Completion) :
    Reported (reports ++ [⟨blob, d.push record⟩])
      (q.join pending completion) := by
  apply h.push
  · intro t ht
    rcases mem_keys_join _ _ _ ht with rfl | ht
    · exact Or.inl hrequested
    · rw [hthreads] at ht
      exact Or.inr ht
  · intro t ht
    apply mem_keys_join_of_mem
    rw [hthreads]
    exact ht
  · intro key waiting hget
    rw [requests_join] at hget
    exact h.pending key waiting (hpending key waiting hget)

theorem Reported.step {reports : List Report} {blob : Blob} {d : Data}
    {p q : PerformanceData} {record : Record}
    (h : Reported (reports ++ [⟨blob, d⟩]) p)
    (htells : Tells blob.thread d p record q) :
    Reported (reports ++ [⟨blob, d.push record⟩]) q := by
  have hself : ∃ report ∈ reports ++ [⟨blob, d⟩],
      report.thread = blob.thread :=
    ⟨⟨blob, d⟩, List.mem_append_right _ (List.mem_singleton_self _), rfl⟩
  cases htells with
  | @request r trace htrace =>
      rcases p.enqueue_eq blob.thread trace r with ⟨sites, number, _, _, heq⟩
      rw [heq]
      split
      · apply h.push_join
        · rfl
        · exact hself
        · intro key waiting hget
          exact hget
      · apply h.push_same
        · rfl
        · intro key pending hget
          simp only [OrderedMap.get?_insert] at hget
          split at hget
          · cases hget
            exact hself
          · exact h.pending key pending hget
  | @completion _ key completion hrecord =>
      unfold complete
      split
      · next pending hpending =>
        apply h.push_join
        · rfl
        · exact h.pending key pending hpending
        · intro other waiting hget
          simp only [OrderedMap.get?_erase] at hget
          split at hget
          · cases hget
          · exact hget
      · apply h.push_same
        · rfl
        · intro other waiting hget
          exact h.pending other waiting hget
  | other hrequest hrecord hsampled =>
      apply h.push
      · intro t ht
        rcases hsampled.keys t ht with rfl | ht
        · exact Or.inl hself
        · exact Or.inr ht
      · exact hsampled.keeps
      · intro key pending hget
        rw [hsampled.requests] at hget
        exact h.pending key pending hget

theorem reported_receive (arrivals : List Blob) :
    Reported (accepted ∅ arrivals) (receive ∅ arrivals) := by
  apply run_induction
  · constructor
    · intro t
      simp [OrderedMap.mem_keys_iff, show (∅ : PerformanceData).threads = ∅
        from rfl]
    · intro key pending h
      cases h
  · intro reports p blob stackTraces h
    constructor
    · intro t
      unfold keep
      rw [mem_keys_changeThread, h.keys]
      simp [Report.thread, or_and_right, exists_or, or_comm, eq_comm]
    · intro key pending hget
      rcases h.pending key pending hget with ⟨report, hmem, hthread⟩
      exact ⟨report, List.mem_append_left _ hmem, hthread⟩
  · intro reports blob d p record q htells h
    exact h.step htells

/-! ## Owners after a run -/

end PerformanceData

def Data.requests (d : Data) (key : RequestKey) : Bool :=
  d.records.any fun r => r.request?.map Request.key = some key

/-- The thread of the last report with a request of a key. -/
def lastRequester (reports : List Report) (key : RequestKey) :
    Option ThreadName :=
  (reports.reverse.find? fun report => report.data.requests key).map
    Report.thread

theorem lastRequester_append (reports : List Report) (report : Report)
    (key : RequestKey) :
    lastRequester (reports ++ [report]) key =
      if report.data.requests key then some report.thread
      else lastRequester reports key := by
  unfold lastRequester
  rw [List.reverse_append, List.reverse_singleton, List.singleton_append,
    List.find?_cons]
  cases report.data.requests key <;> rfl

theorem requests_push (d : Data) (r : Record) (key : RequestKey) :
    (d.push r).requests key =
      (d.requests key || r.request?.map Request.key = some key) := by
  simp [Data.requests, Data.push]

theorem mem_of_lastRequester {reports : List Report} {key : RequestKey}
    {t : ThreadName} (h : lastRequester reports key = some t) :
    ∃ report ∈ reports, report.thread = t := by
  rcases Option.map_eq_some_iff.mp h with ⟨report, hfind, hthread⟩
  exact ⟨report, List.mem_reverse.mp (List.mem_of_find?_eq_some hfind), hthread⟩

namespace PerformanceData

theorem owners_complete (p : PerformanceData) (key : RequestKey)
    (completion : Completion) :
    (p.complete key completion).owners = p.owners := by
  unfold complete
  split
  · exact owners_join _ _ _
  · rfl

theorem owners_enqueue (p : PerformanceData) (name : ThreadName)
    (trace : List Address) (r : Request) :
    (p.enqueue name trace r).owners = p.owners.insert r.key name := by
  rcases p.enqueue_eq name trace r with ⟨sites, number, _, _, heq⟩
  rw [heq]
  split
  · exact owners_join _ _ _
  · rfl

theorem owners_receive (arrivals : List Blob) (key : RequestKey) :
    (receive ∅ arrivals).owners.get? key =
      lastRequester (accepted ∅ arrivals) key := by
  apply run_induction (motive := fun reports p =>
    p.owners.get? key = lastRequester reports key)
  · rfl
  · intro reports p blob stackTraces h
    rw [lastRequester_append]
    exact h
  · intro reports blob d p record q htells h
    rw [lastRequester_append] at h ⊢
    rw [requests_push]
    cases htells with
    | @request r trace htrace =>
        rw [owners_enqueue, OrderedMap.get?_insert, h]
        by_cases hkey : key = r.key
        · simp [Record.request?, hkey, Report.thread]
        · simp [Record.request?, hkey, Ne.symm hkey, Report.thread]
    | @completion _ done completion hrecord =>
        rw [owners_complete, h, request?_of_completion? hrecord]
        simp [Report.thread]
    | other hrequest hrecord hsampled =>
        rw [hsampled.owners, h, hrequest]
        simp [Report.thread]

end PerformanceData
end Cuda
end CudaProfile
