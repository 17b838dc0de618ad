import CudaProfile.Proofs.Cuda.Sampling
/-!
# Rows of periodic samples

A row has a value for each counter that is known when it comes in. Rows that
come in before any counter is known are accepted without values, and they stay
so when counters are configured later, unless the thread samples at the same
time again. Such rows are all that keeps a table from being complete.
-/

namespace CudaProfile
namespace Cuda

open Std Lexicographic

/-! ## Before and after there are counters -/

def Record.configures (r : Record) : Bool :=
  r.counters?.any fun counters => !counters.isEmpty

def beforeCounters (history : List (ThreadName × Record)) :
    List (ThreadName × Record) :=
  history.takeWhile fun e => !e.2.configures

def sinceCounters (history : List (ThreadName × Record)) :
    List (ThreadName × Record) :=
  history.dropWhile fun e => !e.2.configures

def Record.row? : Record → Option (Time × List UInt64)
  | .periodicSamples s => some (s.time, s.counts)
  | _ => none

def rowsOf (name : ThreadName) (history : List (ThreadName × Record)) :
    List (Time × List UInt64) :=
  (recordsOf name history).filterMap Record.row?

/-- There are counters, and a thread sampled at a time before there were any,
but not again since. -/
def SampledTooEarly (name : ThreadName) (history : List (ThreadName × Record))
    (time : Time) : Prop :=
  sinceCounters history ≠ [] ∧
    time ∈ (rowsOf name (beforeCounters history)).map Prod.fst ∧
    time ∉ (rowsOf name (sinceCounters history)).map Prod.fst

theorem rowsOf_append (name : ThreadName)
    (history later : List (ThreadName × Record)) :
    rowsOf name (history ++ later) =
      rowsOf name history ++ rowsOf name later := by
  unfold rowsOf
  rw [recordsOf_append, List.filterMap_append]

theorem rowsOf_singleton (name other : ThreadName) (record : Record) :
    rowsOf name [(other, record)] =
      if other = name then record.row?.toList else [] := by
  unfold rowsOf
  rw [recordsOf_singleton]
  split
  · cases hrow : record.row? <;> simp [hrow]
  · rfl

theorem before_append_since (history : List (ThreadName × Record)) :
    beforeCounters history ++ sinceCounters history = history :=
  List.takeWhile_append_dropWhile

theorem sinceCounters_eq_nil_iff {history : List (ThreadName × Record)} :
    sinceCounters history = [] ↔ beforeCounters history = history := by
  unfold sinceCounters beforeCounters
  rw [List.dropWhile_eq_nil_iff, List.takeWhile_eq_self_iff]

section Concat

variable {history : List (ThreadName × Record)} {e : ThreadName × Record}

theorem concat_before (hhistory : sinceCounters history = [])
    (he : e.2.configures = false) :
    beforeCounters (history ++ [e]) = history ++ [e] ∧
      sinceCounters (history ++ [e]) = [] := by
  rw [and_iff_right_of_imp sinceCounters_eq_nil_iff.mp]
  unfold sinceCounters at hhistory ⊢
  rw [List.dropWhile_append, hhistory]
  simp [he]

theorem concat_since
    (h : sinceCounters history ≠ [] ∨ e.2.configures = true) :
    beforeCounters (history ++ [e]) = beforeCounters history ∧
      sinceCounters (history ++ [e]) = sinceCounters history ++ [e] := by
  have hsince :
      sinceCounters (history ++ [e]) = sinceCounters history ++ [e] := by
    unfold sinceCounters at h ⊢
    rw [List.dropWhile_append]
    split
    · next hempty =>
      have hnone := List.isEmpty_iff.mp hempty
      have he := h.resolve_left (not_not_intro hnone)
      rw [hnone]
      simp [he]
    · rfl
  refine ⟨?_, hsince⟩
  have hwhole := before_append_since (history ++ [e])
  rw [hsince, ← List.append_assoc] at hwhole
  have hbefore := List.append_cancel_right hwhole
  exact List.append_cancel_right
    (hbefore.trans (before_append_since history).symm)

end Concat

theorem configured_eq_nil_iff {known : List CounterDescription}
    {r : Record} :
    configured known [r] = [] ↔ known = [] ∧ r.configures = false := by
  cases known with
  | cons counter rest =>
      simp [configured]
  | nil =>
      unfold Record.configures
      cases hcounters : r.counters? with
      | none =>
          simp [configured, hcounters]
      | some counters =>
          cases counters with
          | nil =>
              simp [configured, hcounters]
          | cons counter rest =>
              simp [configured, hcounters]

theorem row?_shape {pool : List Address} {counters : List CounterDescription}
    {record : Record} {row : Time × List UInt64}
    (h : ¬Malformed pool counters.length record)
    (hrow : record.row? = some row) :
    configured counters [record] = counters ∧
      row.2.length = counters.length := by
  cases record with
  | periodicSamples s =>
      cases hrow
      rw [malformed_periodicSamples_iff, not_not] at h
      exact ⟨configured_of_counters?_eq_none counters rfl, h⟩
  | _ =>
      cases hrow

theorem Samples.periodic_add (s : Samples) (counters : List CounterDescription)
    (record : Record) :
    (s.add counters record).periodic =
      match record.row? with
      | some row => s.periodic.insert row.1 row.2
      | none => s.periodic := by
  cases record <;> rfl

/-! ## Rows after a run -/

/-- The periodic samples of a thread are its rows, of which those before there
were counters have no values, and those since have all. -/
structure RowsKept (name : ThreadName) (history : List (ThreadName × Record))
    (counters : List CounterDescription) (samples : Samples) : Prop where
  periodic_eq : samples.periodic = OrderedMap.ofList (rowsOf name history)
  none_iff : sinceCounters history = [] ↔ counters = []
  before : ∀ row ∈ rowsOf name (beforeCounters history), row.2 = []
  since : ∀ row ∈ rowsOf name (sinceCounters history),
    row.2.length = counters.length

section RowsKept

variable {name : ThreadName} {history : List (ThreadName × Record)}
  {counters : List CounterDescription} {samples : Samples}

theorem mem_rowsOf_concat {other : ThreadName} {record : Record}
    {row : Time × List UInt64}
    (h : row ∈ rowsOf name (history ++ [(other, record)])) :
    row ∈ rowsOf name history ∨ record.row? = some row := by
  rw [rowsOf_append, rowsOf_singleton, List.mem_append] at h
  refine h.imp_right fun hlast => ?_
  split at hlast
  · exact Option.mem_toList.mp hlast
  · cases hlast

theorem RowsKept.periodic_concat
    (h : RowsKept name history counters samples) (other : ThreadName)
    (record : Record) :
    (if other = name then samples.add counters record else samples).periodic =
      OrderedMap.ofList (rowsOf name (history ++ [(other, record)])) := by
  rw [rowsOf_append, rowsOf_singleton]
  split
  · rw [Samples.periodic_add, h.periodic_eq]
    cases record.row? with
    | none =>
        exact congrArg OrderedMap.ofList (List.append_nil _).symm
    | some row =>
        exact (OrderedMap.ofList_concat _ row).symm
  · rw [h.periodic_eq, List.append_nil]

theorem RowsKept.step (h : RowsKept name history counters samples)
    {pool : List Address} (other : ThreadName) {record : Record}
    (hshape : ¬Malformed pool counters.length record) :
    RowsKept name (history ++ [(other, record)])
      (configured counters [record])
      (if other = name then samples.add counters record else samples) := by
  -- As long as there are no counters all records are among those before.
  by_cases hnone : configured counters [record] = []
  · rcases configured_eq_nil_iff.mp hnone with ⟨hcounters, hrecord⟩
    rcases concat_before (e := (other, record)) (h.none_iff.mpr hcounters)
      hrecord with ⟨hbefore, hsince⟩
    have hall := sinceCounters_eq_nil_iff.mp (h.none_iff.mpr hcounters)
    constructor
    · exact h.periodic_concat other record
    · exact iff_of_true hsince hnone
    · intro row hrow
      rw [hbefore] at hrow
      rcases mem_rowsOf_concat hrow with hrow | hrow
      · rw [← hall] at hrow
        exact h.before row hrow
      · have hlength := (row?_shape hshape hrow).2
        rw [hcounters] at hlength
        exact List.length_eq_zero_iff.mp hlength
    · rw [hsince]
      intro row hrow
      cases hrow
  · have hcounted : sinceCounters history ≠ [] ∨ record.configures = true := by
      rw [Ne, h.none_iff]
      rw [configured_eq_nil_iff, not_and_or, Bool.not_eq_false] at hnone
      exact hnone
    rcases concat_since (e := (other, record)) hcounted with ⟨hbefore, hsince⟩
    constructor
    · exact h.periodic_concat other record
    · rw [hsince]
      exact iff_of_false (List.append_ne_nil_of_right_ne_nil _
        (List.cons_ne_nil _ _)) hnone
    · rw [hbefore]
      exact h.before
    · intro row hrow
      rw [hsince] at hrow
      rcases mem_rowsOf_concat hrow with hrow | hrow
      · have hcounters : counters ≠ [] := by
          intro heq
          rw [h.none_iff.mpr heq] at hrow
          cases hrow
        rw [configured_of_ne_nil hcounters]
        exact h.since row hrow
      · rcases row?_shape hshape hrow with ⟨hsame, hlength⟩
        rw [hsame, hlength]

/-- At every time the rows since there are counters replace those before. -/
theorem RowsKept.get?_eq (h : RowsKept name history counters samples)
    (time : Time) :
    samples.periodic.get? time =
      ((OrderedMap.ofList (rowsOf name (sinceCounters history))).get? time).or
        ((OrderedMap.ofList
          (rowsOf name (beforeCounters history))).get? time) := by
  rw [h.periodic_eq, ← OrderedMap.get?_ofList_append, ← rowsOf_append,
    before_append_since]

theorem RowsKept.get?_of_early (h : RowsKept name history counters samples)
    {time : Time} (hearly : SampledTooEarly name history time) :
    samples.periodic.get? time = some [] := by
  rcases hearly with ⟨_, hbefore, hsince⟩
  rw [h.get?_eq, OrderedMap.get?_ofList_eq_none_iff.mpr hsince, Option.none_or]
  cases hget : (OrderedMap.ofList
      (rowsOf name (beforeCounters history))).get? time with
  | none =>
      exact absurd hbefore (OrderedMap.get?_ofList_eq_none_iff.mp hget)
  | some values =>
      have hempty : values = [] :=
        h.before _ (OrderedMap.mem_of_get?_ofList hget)
      rw [hempty]

theorem RowsKept.length_of_get? (h : RowsKept name history counters samples)
    {time : Time} (hnot : ¬SampledTooEarly name history time)
    {values : List UInt64} (hget : samples.periodic.get? time = some values) :
    values.length = counters.length := by
  rw [h.get?_eq] at hget
  rcases Option.or_eq_some_iff.mp hget with hlater | ⟨hsince, hearlier⟩
  · exact h.since _ (OrderedMap.mem_of_get?_ofList hlater)
  · have hrow := OrderedMap.mem_of_get?_ofList hearlier
    have hempty : values = [] := h.before _ hrow
    have hnever : sinceCounters history = [] := by
      by_contra hsome
      exact hnot ⟨hsome, List.mem_map_of_mem hrow,
        OrderedMap.get?_ofList_eq_none_iff.mp hsince⟩
    rw [hempty, h.none_iff.mp hnever]
    rfl

end RowsKept

namespace PerformanceData

theorem rowsKept_receive (arrivals : List Blob) (name : ThreadName) :
    RowsKept name (told (accepted ∅ arrivals)) (receive ∅ arrivals).counters
      ((receive ∅ arrivals).thread name).samples := by
  apply samples_induction
  · constructor
    · rfl
    · exact iff_of_true rfl rfl
    · intro row hrow
      cases hrow
    · intro row hrow
      cases hrow
  · intro pool history counters samples other record hshape h
    exact h.step other hshape

/-! ## A series for each counter -/

theorem getElem?_periodicSeries (p : PerformanceData) (name : ThreadName)
    {c : Nat} {counter : CounterDescription}
    (hcounter : p.counters[c]? = some counter) :
    ∃ series, (p.periodicSeries name).series[c]? = some series ∧
      series.samples.entries =
        (p.thread name).periodic.entries.filterMap fun row =>
          row.2[c]?.map fun value => (row.1, value) := by
  let rows := (p.thread name).periodic.entries
  let column := rows.filterMap fun row =>
    row.2[c]?.map fun value => (row.1, value)
  let start := PeriodicSeries.new counter.name counter.kind
  have hascending : column.Pairwise fun a b => compare a.1 b.1 = .lt := by
    refine (p.thread name).periodic.ascending.filterMap _ ?_
    intro row later hlt a ha b hb
    rcases Option.map_eq_some_iff.mp ha with ⟨_, _, rfl⟩
    rcases Option.map_eq_some_iff.mp hb with ⟨_, _, rfl⟩
    exact hlt
  have hsamples : (column.foldl (fun s e => s.add e.1 e.2) start).samples =
      column.foldl (fun m e => m.insert e.1 e.2) start.samples :=
    (List.foldl_hom PeriodicSeries.samples fun _ _ => rfl).symm
  have hseries : (p.periodicSeries name).series[c]? =
      some (column.foldl (fun s e => s.add e.1 e.2) start) := by
    unfold periodicSeries
    rw [List.getElem?_map, List.getElem?_zipIdx, hcounter, List.foldl_filterMap]
    simp only [Option.map_some, Nat.zero_add]
    congr 2
    funext series row
    cases row.2[c]? <;> rfl
  refine ⟨_, hseries, ?_⟩
  rw [hsamples]
  exact OrderedMap.entries_foldl_insert (m := start.samples) hascending

/-- In an interval every row has a value for each counter, and the series of
each counter has a sample for each row. -/
structure RowsComplete (p : PerformanceData) (name : ThreadName)
    (interval : TimeInterval) : Prop where
  width : ∀ row ∈ p.periodicIn name interval, row.2.length = p.counters.length
  series : ∀ c < p.counters.length,
    ∃ series, (p.periodicSeries name).series[c]? = some series ∧
      (series.samples.entries.filter fun e => interval.contains e.1).map
          (fun e => (e.1, some e.2)) =
        (p.periodicIn name interval).map fun row => (row.1, row.2[c]?)

theorem mem_periodicIn_iff {p : PerformanceData} {name : ThreadName}
    {interval : TimeInterval} {row : Time × List UInt64} :
    row ∈ p.periodicIn name interval ↔
      (p.thread name).periodic.get? row.1 = some row.2 ∧
        interval.contains row.1 = true := by
  unfold periodicIn
  rw [List.mem_filter, OrderedMap.get?_eq_some_iff]

theorem rowsComplete_of_width {p : PerformanceData} {name : ThreadName}
    {interval : TimeInterval}
    (hwidth : ∀ row ∈ p.periodicIn name interval,
      row.2.length = p.counters.length) : RowsComplete p name interval := by
  refine ⟨hwidth, ?_⟩
  intro c hc
  rcases getElem?_periodicSeries p name (List.getElem?_eq_getElem hc) with
    ⟨series, hseries, hentries⟩
  refine ⟨series, hseries, ?_⟩
  let column (row : Time × List UInt64) : Option (Time × UInt64) :=
    row.2[c]?.map fun value => (row.1, value)
  have hfilter : series.samples.entries.filter (fun e =>
      interval.contains e.1) = (p.periodicIn name interval).filterMap column := by
    unfold periodicIn
    rw [hentries, List.filter_filterMap, List.filterMap_filter]
    apply List.filterMap_congr
    intro row _
    cases hvalue : row.2[c]? <;> simp [column, hvalue, Option.filter_some]
  rw [hfilter, List.map_filterMap, ← List.filterMap_eq_map]
  apply List.filterMap_congr
  intro row hrow
  have hshort : c < row.2.length := (hwidth row hrow).symm ▸ hc
  simp [column, List.getElem?_eq_getElem hshort]

/-- Every row is complete exactly if none is left that was taken before there
were counters. -/
theorem rows_complete_iff (arrivals : List Blob) (name : ThreadName)
    (interval : TimeInterval) :
    RowsComplete (receive ∅ arrivals) name interval ↔
      ∀ time, interval.contains time = true →
        ¬SampledTooEarly name (told (accepted ∅ arrivals)) time := by
  have hkept := rowsKept_receive arrivals name
  constructor
  · intro hcomplete time hcontains hearly
    have hrow : (time, []) ∈ (receive ∅ arrivals).periodicIn name interval :=
      mem_periodicIn_iff.mpr ⟨hkept.get?_of_early hearly, hcontains⟩
    have hcounters : (receive ∅ arrivals).counters = [] :=
      List.length_eq_zero_iff.mp (hcomplete.width _ hrow).symm
    exact hearly.1 (hkept.none_iff.mpr hcounters)
  · intro hnone
    apply rowsComplete_of_width
    intro row hrow
    rcases mem_periodicIn_iff.mp hrow with ⟨hget, hcontains⟩
    exact hkept.length_of_get? (hnone row.1 hcontains) hget

def earlySample (again : Time) : List Blob :=
  let header : BlobHeader :=
    ⟨0, 0, collectorId, .ofName ⟨"a", 1, none, none⟩, ⟨0, 1⟩⟩
  [Data.toBlob ⟨[.periodicSamples ⟨20, []⟩], []⟩ header,
    Data.toBlob ⟨[.samplingConfig ⟨10, [⟨"inst_executed", .count, 0⟩]⟩], []⟩
      header,
    Data.toBlob ⟨[.periodicSamples ⟨again, [5]⟩], []⟩ header]

theorem rows_complete_iff_sampled_again :
    (receive ∅ (earlySample 20)).counters.length = 1 ∧
      RowsComplete (receive ∅ (earlySample 20)) ⟨"a", 1, none, none⟩ .full := by
  refine ⟨by decide +kernel, (rows_complete_iff _ _ _).mpr ?_⟩
  intro time _ hearly
  rcases hearly with ⟨_, hbefore, hsince⟩
  have htimes : (rowsOf ⟨"a", 1, none, none⟩
      (beforeCounters (told (accepted ∅ (earlySample 20))))).map Prod.fst =
        [20] := by
    decide +kernel
  have hagain : 20 ∈ (rowsOf ⟨"a", 1, none, none⟩
      (sinceCounters (told (accepted ∅ (earlySample 20))))).map Prod.fst := by
    decide +kernel
  rw [htimes, List.mem_singleton] at hbefore
  rw [hbefore] at hsince
  exact hsince hagain

/-- All three blobs are accepted, and the row stays without a value. -/
theorem early_row_stays_empty :
    (accepted ∅ (earlySample 30)).length = 3 ∧
      (receive ∅ (earlySample 30)).counters.length = 1 ∧
      (20, []) ∈
        (receive ∅ (earlySample 30)).periodicIn ⟨"a", 1, none, none⟩ .full ∧
      ¬RowsComplete (receive ∅ (earlySample 30)) ⟨"a", 1, none, none⟩ .full := by
  have hcounters : (receive ∅ (earlySample 30)).counters.length = 1 := by
    decide +kernel
  have hrow : (20, []) ∈
      (receive ∅ (earlySample 30)).periodicIn ⟨"a", 1, none, none⟩ .full := by
    decide +kernel
  refine ⟨by decide +kernel, hcounters, hrow, ?_⟩
  intro hcomplete
  have hwidth := hcomplete.width _ hrow
  rw [hcounters] at hwidth
  cases hwidth

end PerformanceData
end Cuda
end CudaProfile
