import CudaProfile.Proofs.Order.OrderedMap
import CudaProfile.Proofs.Sampling.Grid
import CudaProfile.Sampling.Group
/-!
# Resampling visits exactly its grid

A series that has samples has a value at every time: at the time of a sample it
is that sample's, since the searches before and after the time meet there. So
resampling over an interval gives one sample for every time of the grid and no
others, and what already lies on the grid is kept. The interval of a group is
the hull of those of its series, from the least of their times to the greatest.
-/

namespace CudaProfile

open Std

/-! ## Times of samples -/

def PeriodicSeries.times (s : PeriodicSeries) : Set Time :=
  {t | t ∈ s.samples.keys}

def SeriesGroup.times (g : SeriesGroup) : Set Time :=
  {t | ∃ s ∈ g.series, t ∈ s.times}

/-- An interval is the smallest one with some times in it. -/
inductive Interval.Spans (i : TimeInterval) (times : Set Time) : Prop where
  | nothing (htimes : times = ∅) (hempty : i.isEmpty = true)
  | between (hleast : IsLeast times i.lo) (hgreatest : IsGreatest times i.hi)

namespace Interval.Spans

variable {i j : TimeInterval} {times others : Set Time}

theorem isLeast (h : i.Spans times) (hsome : times.Nonempty) :
    IsLeast times i.lo := by
  cases h with
  | nothing htimes hempty =>
      exact absurd htimes hsome.ne_empty
  | between hleast hgreatest =>
      exact hleast

theorem isGreatest (h : i.Spans times) (hsome : times.Nonempty) :
    IsGreatest times i.hi := by
  cases h with
  | nothing htimes hempty =>
      exact absurd htimes hsome.ne_empty
  | between hleast hgreatest =>
      exact hgreatest

theorem isEmpty_eq_false (h : i.Spans times) (hsome : times.Nonempty) :
    i.isEmpty = false := by
  have hle : i.lo ≤ i.hi := (h.isLeast hsome).2 (h.isGreatest hsome).1
  exact decide_eq_false (Std.not_lt.mpr hle)

theorem isLeast_union {a b : Time} (ha : IsLeast times a)
    (hb : IsLeast others b) : IsLeast (times ∪ others) (min a b) := by
  rw [Interval.min_eq]
  split
  · next hle =>
    refine ⟨.inl ha.1, ?_⟩
    intro t ht
    rcases ht with ht | ht
    · exact ha.2 ht
    · exact Std.le_trans hle (hb.2 ht)
  · next hgt =>
    refine ⟨.inr hb.1, ?_⟩
    intro t ht
    rcases ht with ht | ht
    · exact Std.le_trans (Std.le_of_not_ge hgt) (ha.2 ht)
    · exact hb.2 ht

theorem isGreatest_union {a b : Time} (ha : IsGreatest times a)
    (hb : IsGreatest others b) : IsGreatest (times ∪ others) (max a b) := by
  rw [Interval.max_eq]
  split
  · next hle =>
    refine ⟨.inr hb.1, ?_⟩
    intro t ht
    rcases ht with ht | ht
    · exact Std.le_trans (ha.2 ht) hle
    · exact hb.2 ht
  · next hgt =>
    refine ⟨.inl ha.1, ?_⟩
    intro t ht
    rcases ht with ht | ht
    · exact ha.2 ht
    · exact Std.le_trans (hb.2 ht) (Std.le_of_not_ge hgt)

theorem hull (hi : i.Spans times) (hj : j.Spans others) :
    (i.hull j).Spans (times ∪ others) := by
  unfold Interval.hull
  cases hi with
  | nothing htimes hempty =>
      rw [if_pos hempty, htimes, Set.empty_union]
      exact hj
  | between hleast hgreatest =>
      have hsome : i.isEmpty = false :=
        (between hleast hgreatest).isEmpty_eq_false ⟨_, hleast.1⟩
      rw [if_neg (Bool.eq_false_iff.mp hsome)]
      cases hj with
      | nothing hothers hempty =>
          rw [if_pos hempty, hothers, Set.union_empty]
          exact .between hleast hgreatest
      | between hleast' hgreatest' =>
          have hsome' : j.isEmpty = false :=
            (between hleast' hgreatest').isEmpty_eq_false ⟨_, hleast'.1⟩
          rw [if_neg (Bool.eq_false_iff.mp hsome')]
          exact .between (isLeast_union hleast hleast')
            (isGreatest_union hgreatest hgreatest')

end Interval.Spans

namespace PeriodicSeries

variable {s : PeriodicSeries}

theorem mem_times_iff {t : Time} :
    t ∈ s.times ↔ ∃ value, s.get? t = some value :=
  OrderedMap.mem_keys_iff

theorem times_eq_empty_iff : s.times = ∅ ↔ s.size = 0 := by
  change s.times = ∅ ↔ s.samples.entries.length = 0
  rw [List.length_eq_zero_iff, Set.eq_empty_iff_forall_notMem]
  constructor
  · intro hnone
    apply List.eq_nil_iff_forall_not_mem.mpr
    intro e he
    exact hnone e.1 (List.mem_map_of_mem he)
  · intro hnil t ht
    rcases List.mem_map.mp ht with ⟨e, he, _⟩
    rw [hnil] at he
    cases he

theorem times_nonempty_iff : s.times.Nonempty ↔ 0 < s.size := by
  rw [Set.nonempty_iff_ne_empty, ne_eq, times_eq_empty_iff, Nat.pos_iff_ne_zero]

theorem isLeast_times {first : Time × UInt64} {rest : List (Time × UInt64)}
    (h : s.samples.entries = first :: rest) : IsLeast s.times first.1 := by
  have hascending := s.samples.ascending
  rw [h, List.pairwise_cons] at hascending
  have hkeys : s.samples.keys = first.1 :: rest.map Prod.fst := by
    unfold OrderedMap.keys
    rw [h, List.map_cons]
  constructor
  · change first.1 ∈ s.samples.keys
    rw [hkeys]
    exact List.mem_cons_self
  · intro t ht
    change t ∈ s.samples.keys at ht
    rw [hkeys] at ht
    rcases List.mem_cons.mp ht with rfl | hlater
    · exact Std.le_refl _
    · rcases List.mem_map.mp hlater with ⟨e, he, rfl⟩
      exact Std.le_of_lt (Std.compare_eq_lt.mp (hascending.1 e he))

theorem isGreatest_times {last : Time × UInt64} {others : List (Time × UInt64)}
    (h : s.samples.entries = others ++ [last]) :
    IsGreatest s.times last.1 := by
  have hascending := s.samples.ascending
  rw [h, List.pairwise_append] at hascending
  have hkeys : s.samples.keys = others.map Prod.fst ++ [last.1] := by
    unfold OrderedMap.keys
    rw [h, List.map_append]
    rfl
  constructor
  · change last.1 ∈ s.samples.keys
    rw [hkeys]
    exact List.mem_append_right _ (List.mem_singleton_self _)
  · intro t ht
    change t ∈ s.samples.keys at ht
    rw [hkeys] at ht
    rcases List.mem_append.mp ht with hearlier | hlast
    · rcases List.mem_map.mp hearlier with ⟨e, he, rfl⟩
      exact Std.le_of_lt (Std.compare_eq_lt.mp
        (hascending.2.2 e he last (List.mem_singleton_self _)))
    · rw [List.mem_singleton.mp hlast]
      exact Std.le_refl _

theorem spans_interval (s : PeriodicSeries) : s.interval.Spans s.times := by
  rcases List.eq_nil_or_concat s.samples.entries with hnil | ⟨others, last, hlast⟩
  · have hinterval : s.interval = .empty := by
      unfold interval OrderedMap.first?
      rw [hnil]
      rfl
    rw [hinterval]
    exact .nothing (times_eq_empty_iff.mpr (List.length_eq_zero_iff.mpr hnil))
      rfl
  · rw [List.concat_eq_append] at hlast
    cases hentries : s.samples.entries with
    | nil =>
        rw [hentries] at hlast
        exact absurd hlast.symm (List.append_ne_nil_of_right_ne_nil _ (by simp))
    | cons first rest =>
        have hinterval : s.interval = ⟨first.1, last.1⟩ := by
          unfold interval OrderedMap.first? OrderedMap.last?
          rw [hlast, List.getLast?_concat, ← hlast, hentries]
          rfl
        rw [hinterval]
        exact .between (isLeast_times hentries) (isGreatest_times hlast)

/-! ## Values at the times of samples -/

theorem valueAt?_of_get? {t : Time} {value : UInt64}
    (h : s.get? t = some value) : s.valueAt? t = some value := by
  rcases List.append_of_mem (OrderedMap.get?_eq_some_iff.mp h) with
    ⟨earlier, later, hentries⟩
  have hascending := s.samples.ascending
  rw [hentries, List.pairwise_append, List.pairwise_cons] at hascending
  rcases hascending with ⟨_, ⟨hlater, _⟩, hearlier⟩
  have hbefore : (s.samples.entries.filter fun e => e.1 ≤ t).getLast? =
      some (t, value) := by
    have hnone : later.filter (fun e => decide (e.1 ≤ t)) = [] := by
      rw [List.filter_eq_nil_iff]
      intro e he hle
      exact Std.not_le.mpr (Std.compare_eq_lt.mp (hlater e he))
        (of_decide_eq_true hle)
    rw [hentries, List.filter_append, List.filter_cons_of_pos, hnone]
    · rw [List.getLast?_append]
      rfl
    · exact decide_eq_true (Std.le_refl t)
  have hafter : (s.samples.entries.find? fun e => t ≤ e.1) =
      some (t, value) := by
    rw [hentries, List.find?_append, List.find?_eq_none.mpr, Option.none_or,
      List.find?_cons_of_pos]
    · exact decide_eq_true (Std.le_refl t)
    · intro e he hle
      exact Std.not_le.mpr
        (Std.compare_eq_lt.mp (hearlier e he _ List.mem_cons_self))
        (of_decide_eq_true hle)
  unfold valueAt?
  simp only [hbefore, hafter]
  exact congrArg some (if_pos rfl)

theorem valueAt?_eq_none_iff {t : Time} :
    s.valueAt? t = none ↔ s.size = 0 := by
  unfold valueAt?
  constructor
  · intro hnone
    apply List.length_eq_zero_iff.mpr
    apply List.eq_nil_iff_forall_not_mem.mpr
    intro e he
    simp only at hnone
    split at hnone
    · cases hnone
    · cases hnone
    · cases hnone
    · next hbefore hafter =>
      rcases Std.le_total (a := e.1) (b := t) with hle | hle
      · rw [List.getLast?_eq_none_iff, List.filter_eq_nil_iff] at hbefore
        exact hbefore e he (decide_eq_true hle)
      · rw [List.find?_eq_none] at hafter
        exact hafter e he (decide_eq_true hle)
  · intro hsize
    rw [List.length_eq_zero_iff.mp hsize]
    rfl

theorem exists_valueAt? (h : 0 < s.size) (t : Time) :
    ∃ value, s.valueAt? t = some value := by
  apply Option.ne_none_iff_exists'.mp
  intro hnone
  exact Nat.pos_iff_ne_zero.mp h (valueAt?_eq_none_iff.mp hnone)

/-! ## Samples on a grid -/

section Grid

variable {interval : TimeInterval} {step : GridStep}

theorem entries_resampleOver :
    (s.resampleOver interval step).samples.entries =
      (gridTimes interval step).filterMap fun t =>
        (s.valueAt? t).map fun value => (t, value) := by
  apply OrderedMap.entries_ofAscending
  apply ascending_gridTimes.filterMap
  intro t u hlt e he f hf
  rcases Option.map_eq_some_iff.mp he with ⟨value, _, rfl⟩
  rcases Option.map_eq_some_iff.mp hf with ⟨other, _, rfl⟩
  exact Std.compare_eq_lt.mpr hlt

theorem get?_resampleOver_iff {t : Time} {value : UInt64} :
    (s.resampleOver interval step).get? t = some value ↔
      t ∈ gridTimes interval step ∧ s.valueAt? t = some value := by
  change (s.resampleOver interval step).samples.get? t = _ ↔ _
  rw [OrderedMap.get?_eq_some_iff, entries_resampleOver, List.mem_filterMap]
  constructor
  · intro h
    rcases h with ⟨u, hu, hvalue⟩
    rcases Option.map_eq_some_iff.mp hvalue with ⟨value', hvalue', heq⟩
    cases heq
    exact ⟨hu, hvalue'⟩
  · intro h
    refine ⟨t, h.1, ?_⟩
    rw [h.2]
    rfl

theorem times_resampleOver (h : 0 < s.size) :
    (s.resampleOver interval step).times =
      {t | t ∈ gridTimes interval step} := by
  ext t
  rw [mem_times_iff]
  constructor
  · intro ht
    rcases ht with ⟨value, hvalue⟩
    exact (get?_resampleOver_iff.mp hvalue).1
  · intro ht
    rcases exists_valueAt? h t with ⟨value, hvalue⟩
    exact ⟨value, get?_resampleOver_iff.mpr ⟨ht, hvalue⟩⟩

theorem size_resampleOver (h : 0 < s.size) :
    (s.resampleOver interval step).size =
      (gridTimes interval step).length := by
  change (s.resampleOver interval step).samples.entries.length = _
  rw [entries_resampleOver, List.length_filterMap_eq_countP,
    List.countP_eq_length]
  intro t _
  rcases exists_valueAt? h t with ⟨value, hvalue⟩
  rw [hvalue]
  rfl

theorem resampleOver_eq_self
    (h : s.times = ∅ ∨ s.times = {t | t ∈ gridTimes interval step}) :
    s.resampleOver interval step = s := by
  have hsamples : (s.resampleOver interval step).samples = s.samples := by
    apply OrderedMap.ext_get?
    intro t value
    change (s.resampleOver interval step).get? t = some value ↔
      s.get? t = some value
    rw [get?_resampleOver_iff]
    constructor
    · intro hvalue
      rcases h with hempty | hgrid
      · rw [valueAt?_eq_none_iff.mpr (times_eq_empty_iff.mp hempty)] at hvalue
        cases hvalue.2
      · have ht : t ∈ s.times := hgrid ▸ hvalue.1
        rcases mem_times_iff.mp ht with ⟨value', hvalue'⟩
        rw [valueAt?_of_get? hvalue'] at hvalue
        exact hvalue'.trans hvalue.2
    · intro hvalue
      refine ⟨?_, valueAt?_of_get? hvalue⟩
      have ht : t ∈ s.times := mem_times_iff.mpr ⟨value, hvalue⟩
      rcases h with hempty | hgrid
      · rw [hempty] at ht
        cases ht
      · rw [hgrid] at ht
        exact ht
  cases s
  exact congrArg (PeriodicSeries.mk _ _) hsamples

/-- What resampling on a grid makes of a series. -/
structure Resampled (grid : Set Time) (s resampled : PeriodicSeries) :
    Prop where
  name : resampled.name = s.name
  kind : resampled.kind = s.kind
  /-- A series with samples gets one at each time of the grid and no others. -/
  times : 0 < s.size → resampled.times = grid
  /-- A sample of the series at a time of the grid keeps its value. -/
  values : ∀ t ∈ grid, ∀ value, s.get? t = some value →
    resampled.get? t = some value
  /-- A series without samples stays without. -/
  empty : s.size = 0 → resampled = s

theorem setOf_mem_gridTimes (h : interval.isEmpty = false) :
    {t | t ∈ gridTimes interval step} =
      grid interval.lo interval.hi step.width := by
  ext t
  exact mem_gridTimes_iff h

theorem resampled_resampleOver (step : GridStep)
    (h : 0 < s.size → interval.isEmpty = false) :
    Resampled (grid interval.lo interval.hi step.width) s
      (s.resampleOver interval step) where
  name := rfl
  kind := rfl
  times hsize := by
    rw [times_resampleOver hsize, setOf_mem_gridTimes (h hsize)]
  values t ht value hvalue := by
    have hsize : 0 < s.size :=
      times_nonempty_iff.mp ⟨t, mem_times_iff.mpr ⟨value, hvalue⟩⟩
    exact get?_resampleOver_iff.mpr
      ⟨(mem_gridTimes_iff (h hsize)).mpr ht, valueAt?_of_get? hvalue⟩
  empty hsize := resampleOver_eq_self (.inl (times_eq_empty_iff.mpr hsize))

end Grid

/-! ## Grids within one another -/

theorem grid_of_isGreatest {first last final : Time} {width : UInt64}
    (h : IsGreatest (grid first last width) final) :
    grid first final width = grid first last width := by
  rcases h.1 with ⟨_, _, hfinal⟩
  ext t
  constructor
  · intro ht
    rcases ht with ⟨k, hk, hle⟩
    exact ⟨k, hk, Std.le_trans hle hfinal⟩
  · intro ht
    have hle : t ≤ final := h.2 ht
    rcases ht with ⟨k, hk, _⟩
    exact ⟨k, hk, hle⟩

theorem eq_first_of_isLeast {first last least : Time} {width : UInt64}
    (h : IsLeast (grid first last width) least) : least = first := by
  rcases h.1 with ⟨k, hk, hle⟩
  have hfirst : first ≤ least := by
    rw [UInt64.le_iff_toNat_le, hk]
    exact Nat.le_add_right _ _
  exact Std.le_antisymm (h.2 (first_mem_grid (Std.le_trans hfirst hle))) hfirst

theorem grid_of_spans {interval : TimeInterval} {first last : Time}
    {width : UInt64} (hleast : IsLeast (grid first last width) interval.lo)
    (hgreatest : IsGreatest (grid first last width) interval.hi) :
    grid interval.lo interval.hi width = grid first last width := by
  rw [eq_first_of_isLeast hleast, grid_of_isGreatest hgreatest]

theorem resampleOver_eq_self_of_spans {interval : TimeInterval}
    {first last : Time} (step : GridStep)
    (hspans : interval.Spans (grid first last step.width))
    (h : s.times = ∅ ∨ s.times = grid first last step.width) :
    s.resampleOver interval step = s := by
  apply resampleOver_eq_self
  rcases h with hempty | hgrid
  · exact .inl hempty
  · rcases Set.eq_empty_or_nonempty s.times with hempty | hsome
    · exact .inl hempty
    · right
      rw [hgrid] at hsome
      rw [setOf_mem_gridTimes (hspans.isEmpty_eq_false hsome),
        grid_of_spans (hspans.isLeast hsome) (hspans.isGreatest hsome), hgrid]

end PeriodicSeries

/-! ## Groups -/

namespace SeriesGroup

open PeriodicSeries

variable {g : SeriesGroup}

theorem spans_foldl_hull (series : List PeriodicSeries) {i : TimeInterval}
    {times : Set Time} (h : i.Spans times) :
    (series.foldl (fun hull s => hull.hull s.interval) i).Spans
      (times ∪ {t | ∃ s ∈ series, t ∈ s.times}) := by
  induction series generalizing i times with
  | nil =>
      simpa using h
  | cons s rest ih =>
      have hmore := ih (h.hull s.spans_interval)
      have htimes : {t | ∃ s' ∈ s :: rest, t ∈ s'.times} =
          s.times ∪ {t | ∃ s' ∈ rest, t ∈ s'.times} := by
        ext t
        simp
      rw [List.foldl_cons, htimes, ← Set.union_assoc]
      exact hmore

theorem spans_interval (g : SeriesGroup) : g.interval.Spans g.times := by
  have h := spans_foldl_hull g.series
    (.nothing rfl (rfl : Interval.empty.isEmpty = true))
  rw [Set.empty_union] at h
  exact h

theorem times_nonempty {s : PeriodicSeries} (hs : s ∈ g.series)
    (hsize : 0 < s.size) : g.times.Nonempty := by
  rcases times_nonempty_iff.mpr hsize with ⟨t, ht⟩
  exact ⟨t, s, hs, ht⟩

theorem resampled_resampleOver (g : SeriesGroup) (step : GridStep) :
    List.Forall₂
      (Resampled (grid g.interval.lo g.interval.hi step.width))
      g.series (g.resampleOver step).series := by
  show List.Forall₂ _ g.series (g.series.map _)
  rw [List.forall₂_map_right_iff, List.forall₂_same]
  intro s hs
  apply PeriodicSeries.resampled_resampleOver step
  intro hsize
  exact g.spans_interval.isEmpty_eq_false (times_nonempty hs hsize)

end SeriesGroup

namespace PeriodicSeries

/-- Resampling a series at a rate, of which zero counts as one, takes a step for
each time of the grid and so comes to an end. It leaves samples at exactly the
times of the grid from the first sample to the last, with the values of those
that lie on it, and keeps a series that lies on such a grid. In a group all
series with samples get the times of one grid, from the least time of all series
to the greatest. -/
theorem resampling_visits_exactly_its_grid (rate : UInt64) :
    (∀ s : PeriodicSeries, 0 < s.size →
      IsLeast s.times s.interval.lo ∧ IsGreatest s.times s.interval.hi ∧
      Resampled (grid s.interval.lo s.interval.hi (max 1 rate)) s
        (s.resample (some rate)) ∧
      (s.resample (some rate)).size =
        (s.interval.hi.toNat - s.interval.lo.toNat) / (max 1 rate).toNat +
          1) ∧
    (∀ g : SeriesGroup,
      (g.times.Nonempty →
        IsLeast g.times g.interval.lo ∧ IsGreatest g.times g.interval.hi) ∧
      ∃ resampled, g.resample? (some rate) = some resampled ∧
        List.Forall₂
          (Resampled (grid g.interval.lo g.interval.hi (max 1 rate)))
          g.series resampled.series) ∧
    ∀ (s : PeriodicSeries) (first last : Time),
      s.times = grid first last (max 1 rate) → s.resample (some rate) = s := by
  refine ⟨?_, ?_, ?_⟩
  · intro s hsize
    have hspans := s.spans_interval
    have hsome := times_nonempty_iff.mpr hsize
    have hinterval := hspans.isEmpty_eq_false hsome
    refine ⟨hspans.isLeast hsome, hspans.isGreatest hsome,
      resampled_resampleOver (.ofRate rate) fun _ => hinterval, ?_⟩
    exact (size_resampleOver hsize).trans (length_gridTimes hinterval)
  · intro g
    have hspans := g.spans_interval
    exact ⟨fun hsome => ⟨hspans.isLeast hsome, hspans.isGreatest hsome⟩,
      _, rfl, g.resampled_resampleOver (.ofRate rate)⟩
  · intro s first last hgrid
    have hspans := s.spans_interval
    rw [hgrid] at hspans
    exact resampleOver_eq_self_of_spans (.ofRate rate) hspans (.inr hgrid)

/-- The last step of this walk would lead past the end of time. The second
series of the group has no samples. -/
theorem resampling_visits_exactly_its_grid_end_of_time :
    let s := ((new "cycles" .count).add (Time.last - 2) 5).add Time.last 9
    let g : SeriesGroup := ⟨[s, new "idle" .count]⟩
    0 < s.size ∧ g.times.Nonempty ∧ (s.resample (some 0)).size = 3 ∧
      (s.resample (some 0)).resample (some 0) = s.resample (some 0) ∧
      IsGreatest g.times g.interval.hi ∧
      ∃ resampled, g.resample? (some 0) = some resampled ∧
        resampled.series.length = 2 := by
  intro s g
  have hsize : 0 < s.size := by
    decide
  have hsome : g.times.Nonempty :=
    g.times_nonempty List.mem_cons_self hsize
  rcases resampling_visits_exactly_its_grid 0 with ⟨hseries, hgroups, hkept⟩
  rcases hseries s hsize with ⟨_, _, hresampled, hrounds⟩
  rcases hgroups g with ⟨hends, resampled, hresample, hall⟩
  refine ⟨hsize, hsome, ?_, ?_, (hends hsome).2, resampled, hresample,
    hall.length_eq.symm⟩
  · rw [hrounds]
    decide
  · exact hkept _ _ _ (hresampled.times hsize)

end PeriodicSeries
end CudaProfile
