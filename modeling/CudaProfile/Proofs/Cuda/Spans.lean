import CudaProfile.Proofs.AddressSet.RangeList
import CudaProfile.Proofs.Cuda.Reshuffling
import CudaProfile.Proofs.Cuda.Staging
/-!
# Headers cover their records

A blob that is put together from records gets a time interval that is computed
from their times. The fold over the times has the least of the first and the
greatest of the last ones, whatever the order of the records, and records
without times do not count. Half-open intervals end at zero after the greatest
word, and are read back as they were.
-/

namespace CudaProfile

namespace Interval

theorem le_maxWord (value : UInt64) : value ≤ maxWord :=
  UInt64.le_iff_toNat_le.mpr (Nat.le_of_lt_succ value.toNat_lt)

theorem max_le_iff {a b c : UInt64} : max a b ≤ c ↔ a ≤ c ∧ b ≤ c := by
  rw [max_eq]
  grind

end Interval

namespace Cuda

open Std Lexicographic

structure Covers (i : TimeInterval) (records : List Record) : Prop where
  /-- It contains both times of every record that does not end before it
  begins. -/
  contains : ∀ times ∈ records.filterMap Record.times?, times.1 ≤ times.2 →
    i.contains times.1 = true ∧ i.contains times.2 = true
  /-- If there are times, and none are the wrong way round, then every other
  interval that contains them contains it. -/
  least : records.filterMap Record.times? ≠ [] →
    (∀ times ∈ records.filterMap Record.times?, times.1 ≤ times.2) →
    ∀ j : TimeInterval,
      (∀ times ∈ records.filterMap Record.times?,
        j.contains times.1 = true ∧ j.contains times.2 = true) →
      j.containsInterval i = true

/-! ## The span of records -/

section Span

variable {records : List Record}

theorem le_lo_foldl_iff (times : List (Time × Time)) (i : TimeInterval)
    (lo : Time) :
    lo ≤ (times.foldl (fun i times => (⟨min i.lo times.1, max i.hi times.2⟩ :
        TimeInterval)) i).lo ↔
      lo ≤ i.lo ∧ ∀ t ∈ times, lo ≤ t.1 := by
  induction times generalizing i with
  | nil =>
      simp
  | cons t rest ih =>
      rw [List.foldl_cons, ih, List.forall_mem_cons, ← and_assoc,
        Std.le_min_iff]

theorem hi_foldl_le_iff (times : List (Time × Time)) (i : TimeInterval)
    (hi : Time) :
    (times.foldl (fun i times => (⟨min i.lo times.1, max i.hi times.2⟩ :
        TimeInterval)) i).hi ≤ hi ↔
      i.hi ≤ hi ∧ ∀ t ∈ times, t.2 ≤ hi := by
  induction times generalizing i with
  | nil =>
      simp
  | cons t rest ih =>
      rw [List.foldl_cons, ih, List.forall_mem_cons, ← and_assoc,
        Interval.max_le_iff]

theorem le_lo_span_iff {lo : Time} :
    lo ≤ (Record.span records).lo ↔
      ∀ times ∈ records.filterMap Record.times?, lo ≤ times.1 := by
  unfold Record.span
  rw [le_lo_foldl_iff]
  exact and_iff_right (Interval.le_maxWord lo)

theorem hi_span_le_iff {hi : Time} :
    (Record.span records).hi ≤ hi ↔
      ∀ times ∈ records.filterMap Record.times?, times.2 ≤ hi := by
  unfold Record.span
  rw [hi_foldl_le_iff]
  exact and_iff_right UInt64.zero_le

theorem covers_span : Covers (Record.span records) records := by
  have hlo := le_lo_span_iff.mp (Std.le_refl (Record.span records).lo)
  have hhi := hi_span_le_iff.mp (Std.le_refl (Record.span records).hi)
  constructor
  · intro times htimes hordered
    rw [Interval.contains_iff, Interval.contains_iff]
    exact ⟨⟨hlo times htimes, Std.le_trans hordered (hhi times htimes)⟩,
      Std.le_trans (hlo times htimes) hordered, hhi times htimes⟩
  · intro htimed hordered j hj
    simp only [Interval.contains_iff] at hj
    have hbegin : j.lo ≤ (Record.span records).lo :=
      le_lo_span_iff.mpr fun times htimes => (hj times htimes).1.1
    have hend : (Record.span records).hi ≤ j.hi :=
      hi_span_le_iff.mpr fun times htimes => (hj times htimes).2.2
    rcases List.exists_mem_of_ne_nil _ htimed with ⟨times, htimes⟩
    have hspan : (Record.span records).lo ≤ (Record.span records).hi :=
      Std.le_trans (hlo times htimes)
        (Std.le_trans (hordered times htimes) (hhi times htimes))
    unfold Interval.containsInterval
    rw [Bool.or_eq_true, Bool.and_eq_true, Interval.contains_iff,
      Interval.contains_iff]
    exact Or.inr ⟨⟨hbegin, Std.le_trans hspan hend⟩,
      Std.le_trans hbegin hspan, hend⟩

theorem covers_of_isEmpty_span (h : (Record.span records).isEmpty = true)
    (i : TimeInterval) : Covers i records := by
  have hnone : ∀ times ∈ records.filterMap Record.times?,
      ¬times.1 ≤ times.2 := by
    intro times htimes hordered
    have hempty : (Record.span records).hi < (Record.span records).lo :=
      of_decide_eq_true h
    rcases covers_span.contains times htimes hordered with ⟨hfirst, hlast⟩
    rw [Interval.contains_iff] at hfirst
    exact Std.not_le.mpr hempty (Std.le_trans hfirst.1 hfirst.2)
  constructor
  · intro times htimes hordered
    exact absurd hordered (hnone times htimes)
  · intro htimed hordered
    rcases List.exists_mem_of_ne_nil _ htimed with ⟨times, htimes⟩
    exact absurd (hordered times htimes) (hnone times htimes)

end Span

/-! ## Headers -/

/-- A blob can be read, and its header has the time of its records. -/
def HeaderCovers (blob : Blob) : Prop :=
  ∃ d, Data.ofBlob blob = .ok d ∧ Covers blob.header.interval d.records

theorem interval_of_time {header : BlobHeader} {i : TimeInterval}
    (h : header.time = i.toHalfOpen) : header.interval = i := by
  unfold BlobHeader.interval
  rw [h, Interval.ofHalfOpen_toHalfOpen]

theorem covers_headerFor (header : BlobHeader) (records : List Record) :
    Covers (Staging.headerFor header records).interval records := by
  by_cases hempty : (Record.span records).isEmpty
  · -- The header stays as it is, so its time may be anything.
    exact covers_of_isEmpty_span hempty _
  · have htime : (Staging.headerFor header records).time =
        (Record.span records).toHalfOpen :=
      congrArg BlobHeader.time (if_neg hempty)
    rw [interval_of_time htime]
    exact covers_span

theorem headerCovers_of_flush {s : Staging} {blob : Blob}
    (h : s.flush.2 = some blob) (hmemory : blob.payload.length < 2 ^ 64) :
    HeaderCovers blob := by
  rw [Staging.eq_toBlob_of_flush h] at hmemory ⊢
  exact ⟨s.data, ofBlob_toBlob_of_length hmemory, covers_headerFor _ _⟩

namespace PerformanceData

theorem covers_adoptedHeader (own : BlobHeader) (t : ThreadName)
    (adopted : List Record) :
    Covers (adoptedHeader own t adopted).interval adopted := by
  have htime : (adoptedHeader own t adopted).time =
      (Record.span adopted).toHalfOpen :=
    rfl
  rw [interval_of_time htime]
  exact covers_span

theorem headerCovers_of_mem_adoptedBlobs {first blob : Blob} {t : ThreadName}
    {adopted : List Record} (h : blob ∈ adoptedBlobs first t adopted)
    (hmemory : blob.payload.length < 2 ^ 64) : HeaderCovers blob := by
  unfold adoptedBlobs at h
  split at h
  · cases h
  · rw [List.mem_singleton] at h
    rw [h] at hmemory ⊢
    exact ⟨⟨adopted, []⟩, ofBlob_toBlob_of_length hmemory,
      covers_adoptedHeader _ _ _⟩

/-- The headers of blobs that are flushed, and of blobs that are put together
from completions which other threads reported, cover the records of the blobs.
Other threads' completions are shown behind what a thread keeps of its own. -/
theorem synthesized_headers_cover_records :
    (∀ (s : Staging) (blob : Blob), s.flush.2 = some blob →
      blob.payload.length < 2 ^ 64 → HeaderCovers blob) ∧
    ∀ (arrivals : List Blob) (t : ThreadName),
      (t ∉ (receive ∅ arrivals).threads.keys →
        (receive ∅ arrivals).reshuffled t = .ok []) ∧
      (t ∈ (receive ∅ arrivals).threads.keys → ∃ first own,
        ((receive ∅ arrivals).blobs t).mapM
          ((receive ∅ arrivals).ownPart t) = .ok own ∧
        (receive ∅ arrivals).reshuffled t = .ok (own.filterMap id ++
          adoptedBlobs first t
            ((receive ∅ arrivals).adopted (accepted ∅ arrivals) t)) ∧
        ∀ blob ∈ adoptedBlobs first t
            ((receive ∅ arrivals).adopted (accepted ∅ arrivals) t),
          blob.payload.length < 2 ^ 64 → HeaderCovers blob) := by
  refine ⟨fun s blob => headerCovers_of_flush, ?_⟩
  intro arrivals t
  refine ⟨reshuffled_of_not_mem, ?_⟩
  intro ht
  rcases reshuffled_ok ht with ⟨first, own, _, hown, _, _, hshown⟩
  exact ⟨first, own, hown, hshown, fun blob hblob =>
    headerCovers_of_mem_adoptedBlobs hblob⟩

def endOfTime : Staging :=
  let header : BlobHeader :=
    ⟨0, 0, collectorId, .ofName ⟨"a", 1, none, none⟩, ⟨0, 1⟩⟩
  (((Staging.new header 4).push (.contextInfo ⟨1, 4⟩)).push
    (.periodicSamples ⟨Interval.maxWord, []⟩)).push
      (.overflowSamples ⟨30, 20, [], []⟩)

/-- The completion that one thread reports for another one in `crossing` is in a
blob that is put together. -/
theorem synthesized_headers_cover_records_end_of_time :
    (∃ blob, endOfTime.flush.2 = some blob ∧
      blob.header.interval = ⟨30, Interval.maxWord⟩ ∧ HeaderCovers blob) ∧
    ∃ (kept : List Blob) (blob : Blob),
      (receive ∅ crossing).reshuffled ⟨"a", 2, none, none⟩ =
        .ok (kept ++ [blob]) ∧
      blob.header.interval = ⟨20, 30⟩ ∧ HeaderCovers blob := by
  rcases synthesized_headers_cover_records with ⟨hflush, hreshuffled⟩
  constructor
  · exact ⟨_, rfl, by decide +kernel,
      hflush endOfTime _ rfl (by decide +kernel)⟩
  · have hkeys : (⟨"a", 2, none, none⟩ : ThreadName) ∈
        (receive ∅ crossing).threads.keys := by
      decide +kernel
    have hadopted : ∃ done, (receive ∅ crossing).adopted (accepted ∅ crossing)
        ⟨"a", 2, none, none⟩ = [done] ∧ Record.span [done] = ⟨20, 30⟩ ∧
          (Format.data.put ⟨[done], []⟩).length < 2 ^ 64 :=
      ⟨.completedXfer ⟨1, 2, 3, 20, 30, 64, .hostToDevice, .pageable, .device,
          false⟩,
        by decide +kernel, by decide +kernel, by decide +kernel⟩
    rcases hadopted with ⟨done, hadopted, hspan, hlength⟩
    rcases (hreshuffled crossing _).2 hkeys with
      ⟨first, own, _, hshown, hcovers⟩
    rw [hadopted] at hshown hcovers
    refine ⟨own.filterMap id, _, hshown, ?_, ?_⟩
    · exact (Interval.ofHalfOpen_toHalfOpen _).trans hspan
    · exact hcovers _ (List.mem_singleton_self _) hlength

end PerformanceData
end Cuda
end CudaProfile
