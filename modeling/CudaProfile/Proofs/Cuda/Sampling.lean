import CudaProfile.Proofs.Cuda.Acceptance
import CudaProfile.Proofs.Cuda.Reshuffling
/-!
# What threads sample

The samples of a thread grow with its own records only, and what they grow by
depends on the counters that are known by then. Requests, completions and the
blobs themselves have no part in it, so a run is for the samples of a thread
just its accepted records, one after the other, with the counters after each.
-/

namespace CudaProfile
namespace Cuda

open Std Lexicographic

/-! ## Samples of a thread -/

structure Samples where
  periodic : OrderedMap Time (List UInt64)
  overflow : List OverflowSeries

namespace Samples

def empty : Samples :=
  ⟨∅, []⟩

instance : EmptyCollection Samples :=
  ⟨empty⟩

def add (s : Samples) (counters : List CounterDescription) :
    Record → Samples
  | .overflowSamples o =>
      ⟨s.periodic, PerformanceData.addOverflow counters o s.overflow⟩
  | .periodicSamples o => ⟨s.periodic.insert o.time o.counts, s.overflow⟩
  | _ => s

end Samples

def ThreadData.samples (data : ThreadData) : Samples :=
  ⟨data.periodic, data.overflow⟩

def recordsOf (name : ThreadName) (history : List (ThreadName × Record)) :
    List Record :=
  (history.filter fun e => e.1 = name).map Prod.snd

theorem recordsOf_append (name : ThreadName)
    (history later : List (ThreadName × Record)) :
    recordsOf name (history ++ later) =
      recordsOf name history ++ recordsOf name later := by
  unfold recordsOf
  rw [List.filter_append, List.map_append]

theorem recordsOf_singleton (name other : ThreadName) (record : Record) :
    recordsOf name [(other, record)] =
      if other = name then [record] else [] := by
  unfold recordsOf
  by_cases h : other = name <;> simp [h]

theorem told_append (reports later : List Report) :
    told (reports ++ later) = told reports ++ told later :=
  List.flatMap_append

theorem told_push (blob : Blob) (d : Data) (record : Record) :
    told [⟨blob, d.push record⟩] =
      told [⟨blob, d⟩] ++ [(blob.thread, record)] := by
  simp [told, Data.push, Report.thread]

theorem configured_of_ne_nil {known : List CounterDescription}
    (h : known ≠ []) (records : List Record) :
    configured known records = known := by
  cases known with
  | nil =>
      exact absurd rfl h
  | cons counter rest =>
      rfl

namespace PerformanceData

/-! ## Who changes the samples -/

theorem samples_changeThread (p : PerformanceData) (name t : ThreadName)
    (f : ThreadData → ThreadData) :
    ((p.changeThread name f).thread t).samples =
      if name = t then (f (p.thread t)).samples else (p.thread t).samples := by
  rw [thread_changeThread]
  by_cases h : name = t
  · rw [if_pos h, if_pos h.symm, h]
  · rw [if_neg h, if_neg (Ne.symm h)]

theorem samples_keep (p : PerformanceData) (blob : Blob) (t : ThreadName) :
    ((p.keep blob).thread t).samples = (p.thread t).samples :=
  (samples_changeThread _ _ _ _).trans (ite_self _)

theorem samples_join (p : PerformanceData) (pending : Pending)
    (completion : Completion) (t : ThreadName) :
    ((p.join pending completion).thread t).samples =
      (p.thread t).samples := by
  unfold join
  split
  · exact (samples_changeThread _ _ _ _).trans (ite_self _)
  · exact (samples_changeThread _ _ _ _).trans (ite_self _)
  · rfl
  · rfl

theorem samples_enqueue (p : PerformanceData) (name : ThreadName)
    (trace : List Address) (r : Request) (t : ThreadName) :
    ((p.enqueue name trace r).thread t).samples = (p.thread t).samples := by
  rcases p.enqueue_eq name trace r with ⟨sites, number, _, _, heq⟩
  rw [heq]
  split
  · exact samples_join _ _ _ t
  · rfl

theorem samples_complete (p : PerformanceData) (key : RequestKey)
    (completion : Completion) (t : ThreadName) :
    ((p.complete key completion).thread t).samples = (p.thread t).samples := by
  unfold complete
  split
  · exact samples_join _ _ _ t
  · rfl

section Counts

variable {name : ThreadName} {d : Data} {p q : PerformanceData}
  {record : Record}

theorem Counts.counters_eq (h : Counts name d p record q) :
    q.counters = configured p.counters [record] := by
  rw [← counters_applyRecord name d p record, h.applied]
  rfl

theorem Counts.samples_eq (h : Counts name d p record q) (t : ThreadName) :
    (q.thread t).samples =
      if name = t then (p.thread t).samples.add p.counters record
      else (p.thread t).samples := by
  -- What a record tells says nothing of samples, so its kinds are split again.
  rcases h with ⟨hchecked, happlied⟩
  cases record with
  | samplingConfig c =>
      cases happlied
      refine Eq.trans ?_ (ite_self _).symm
      split <;> rfl
  | request r =>
      cases htrace : traceOf d r with
      | error error =>
          simp [check, htrace, Except.map] at hchecked
      | ok trace =>
          simp only [applyRecord, htrace, Except.map] at happlied
          cases happlied
          exact (samples_enqueue p name trace r t).trans (ite_self _).symm
  | completedExec e =>
      cases happlied
      exact (samples_complete p _ _ t).trans (ite_self _).symm
  | completedXfer x =>
      cases happlied
      exact (samples_complete p _ _ t).trans (ite_self _).symm
  | overflowSamples s =>
      simp only [applyRecord, hchecked] at happlied
      cases happlied
      exact samples_changeThread p name t _
  | periodicSamples s =>
      simp only [applyRecord, hchecked] at happlied
      cases happlied
      exact samples_changeThread p name t _
  | _ =>
      cases happlied
      exact (ite_self _).symm

end Counts

/-! ## Runs -/

/-- What holds of no samples, and further on with each accepted record of any
thread, holds of the samples of a thread after every run. -/
theorem samples_induction {t : ThreadName}
    {motive : List (ThreadName × Record) → List CounterDescription → Samples →
      Prop}
    (start : motive [] [] ∅)
    (step : ∀ pool history counters samples name record,
      ¬Malformed pool counters.length record →
      motive history counters samples →
      motive (history ++ [(name, record)]) (configured counters [record])
        (if name = t then samples.add counters record else samples))
    (arrivals : List Blob) :
    motive (told (accepted ∅ arrivals)) (receive ∅ arrivals).counters
      ((receive ∅ arrivals).thread t).samples := by
  apply run_induction_of_counts (motive := fun reports p =>
    motive (told reports) p.counters (p.thread t).samples)
  · exact start
  · intro reports p blob stackTraces h
    rw [told_append, samples_keep, counters_keep]
    simpa [told] using h
  · intro reports blob d p record q hcounts h
    rw [told_append, told_push, ← List.append_assoc, ← told_append,
      hcounts.counters_eq, hcounts.samples_eq]
    exact step _ _ _ _ _ _ (check_eq_ok_iff.mp hcounts.checked) h

end PerformanceData
end Cuda
end CudaProfile
