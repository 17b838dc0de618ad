import Mathlib
import CudaProfile.Proofs.Sampling.Resampling
/-!
# Resampling once is enough

The samples of a resampled series lie one step apart, so the mean time between
them is the step again, and a step that was rounded to whole milliseconds stays
as it is when it is rounded once more. A second resampling therefore walks over
the same grid. For a group the mean of the rates is the step as long as their
sum is a word; else there is no mean, and resampling at it fails.
-/

namespace CudaProfile

/-! ## Whole milliseconds -/

def WholeMilliseconds (nanoseconds : UInt64) : Prop :=
  ∃ k : Nat, 0 < k ∧ nanoseconds.toNat = k * 1000000

theorem wholeMilliseconds_of_div (raised : UInt64) :
    WholeMilliseconds (max nanosecondsPerMillisecond
      (raised / nanosecondsPerMillisecond * nanosecondsPerMillisecond)) := by
  have hunit : nanosecondsPerMillisecond.toNat = 1000000 := rfl
  have hwhole :
      (raised / nanosecondsPerMillisecond * nanosecondsPerMillisecond).toNat =
        raised.toNat / 1000000 * 1000000 := by
    have hraised := raised.toNat_lt
    rw [UInt64.toNat_mul, UInt64.toNat_div, hunit, Nat.mod_eq_of_lt]
    omega
  rw [Interval.max_eq]
  split
  · next hle =>
    refine ⟨raised.toNat / 1000000, ?_, hwhole⟩
    rw [UInt64.le_iff_toNat_le, hwhole, hunit] at hle
    omega
  · exact ⟨1, Nat.one_pos, hunit⟩

theorem wholeMilliseconds_rounded (nanoseconds : UInt64) :
    WholeMilliseconds (roundedToMillisecond nanoseconds) :=
  wholeMilliseconds_of_div _

/-- Rounding keeps what is whole; half a millisecond more is still a word. -/
theorem WholeMilliseconds.rounded {nanoseconds : UInt64}
    (h : WholeMilliseconds nanoseconds) :
    roundedToMillisecond nanoseconds = nanoseconds := by
  rcases h with ⟨k, hk, hwhole⟩
  have hword := nanoseconds.toNat_lt
  have hhalf : (nanosecondsPerMillisecond / 2).toNat = 500000 := rfl
  have hunit : nanosecondsPerMillisecond.toNat = 1000000 := rfl
  have hroom : (Interval.maxWord - nanosecondsPerMillisecond / 2).toNat =
      2 ^ 64 - 1 - 500000 := rfl
  have hfits : ¬nanoseconds >
      Interval.maxWord - nanosecondsPerMillisecond / 2 := by
    rw [gt_iff_lt, UInt64.lt_iff_toNat_lt, hroom]
    omega
  have hraised : (nanoseconds + nanosecondsPerMillisecond / 2).toNat =
      k * 1000000 + 500000 := by
    rw [UInt64.toNat_add, hhalf, hwhole, Nat.mod_eq_of_lt]
    omega
  have hagain : (nanoseconds + nanosecondsPerMillisecond / 2) /
      nanosecondsPerMillisecond * nanosecondsPerMillisecond = nanoseconds := by
    apply UInt64.toNat_inj.mp
    rw [UInt64.toNat_mul, UInt64.toNat_div, hraised, hunit, hwhole,
      Nat.mod_eq_of_lt]
    · omega
    · omega
  have hleast : nanosecondsPerMillisecond ≤ nanoseconds := by
    rw [UInt64.le_iff_toNat_le, hunit, hwhole]
    omega
  unfold roundedToMillisecond
  simp only
  rw [if_neg hfits, hagain, Interval.max_eq, if_pos hleast]

/-! ## The rate of a series on a grid -/

namespace PeriodicSeries

variable {s : PeriodicSeries}

theorem ofRate_width (step : GridStep) : GridStep.ofRate step.width = step := by
  rcases step with ⟨width, hpositive⟩
  have hwidth : max 1 width = width := by
    apply if_pos
    rw [UInt64.le_iff_toNat_le]
    exact UInt64.lt_iff_toNat_lt.mp hpositive
  unfold GridStep.ofRate
  simp only [hwidth]

theorem grid_self (t : Time) (width : UInt64) : grid t t width = {t} := by
  ext u
  rw [Set.mem_singleton_iff]
  constructor
  · intro hu
    rcases hu with ⟨k, hk, hle⟩
    apply Std.le_antisymm hle
    rw [UInt64.le_iff_toNat_le, hk]
    exact Nat.le_add_right _ _
  · intro hu
    rw [hu]
    exact first_mem_grid (Std.le_refl t)

theorem times_of_size_eq_one (h : s.size = 1) : ∃ t, s.times = {t} := by
  rcases List.length_eq_one_iff.mp h with ⟨e, he⟩
  refine ⟨e.1, ?_⟩
  ext t
  change t ∈ s.samples.entries.map Prod.fst ↔ t = e.1
  rw [he, List.map_singleton, List.mem_singleton]

theorem rate_of_size_lt_two (h : s.size < 2) : s.rate = 0 :=
  if_pos h

theorem rate_of_times_eq_grid {step : GridStep} {first last : Time}
    (h : s.times = grid first last step.width) (hsize : 2 ≤ s.size) :
    s.rate = step.width := by
  have hsamples : 0 < s.size := Nat.lt_of_lt_of_le Nat.two_pos hsize
  have hspans := s.spans_interval
  have hsome := times_nonempty_iff.mpr hsamples
  have hinterval := hspans.isEmpty_eq_false hsome
  have hle : s.interval.lo ≤ s.interval.hi :=
    (hspans.isLeast hsome).2 (hspans.isGreatest hsome).1
  rw [h] at hspans hsome
  -- The last sample lies `k` steps after the first, so there are `k + 1`.
  rcases (hspans.isGreatest hsome).1 with ⟨k, hk, _⟩
  rw [← eq_first_of_isLeast (hspans.isLeast hsome)] at hk
  have hcount : s.size = k + 1 := by
    have hrounds : (s.resampleOver s.interval step).size =
        (gridTimes s.interval step).length := size_resampleOver hsamples
    rw [resampleOver_eq_self_of_spans step hspans (.inr h),
      length_gridTimes hinterval, hk, Nat.add_sub_cancel_left,
      Nat.mul_div_cancel _ (positive_width step)] at hrounds
    exact hrounds
  have hpositive : 0 < k := by
    omega
  have hsteps : (UInt64.ofNat k).toNat = k := by
    have hword := s.interval.hi.toNat_lt
    have hfew := Nat.le_mul_of_pos_right k (positive_width step)
    rw [UInt64.toNat_ofNat', Nat.mod_eq_of_lt]
    omega
  unfold rate
  rw [if_neg (Nat.not_lt.mpr hsize), hcount, Nat.add_sub_cancel]
  apply UInt64.toNat_inj.mp
  rw [UInt64.toNat_div, UInt64.toNat_sub_of_le _ _ hle, hsteps, hk,
    Nat.add_sub_cancel_left, Nat.mul_div_cancel_left _ hpositive]

theorem exists_times_eq_grid_self (h : s.size < 2) :
    s.times = ∅ ∨ ∃ t, ∀ width, s.times = grid t t width := by
  rcases Nat.lt_or_ge 0 s.size with hsome | hnone
  · right
    rcases times_of_size_eq_one (Nat.le_antisymm (Nat.lt_succ_iff.mp h) hsome)
      with ⟨t, ht⟩
    exact ⟨t, fun width => ht.trans (grid_self t width).symm⟩
  · left
    exact times_eq_empty_iff.mpr (Nat.eq_zero_of_le_zero hnone)

/-! ## Series -/

section Series

variable {step : GridStep} {first last : Time}

theorem resampleOver_interval_eq_self
    (h : s.times = ∅ ∨ s.times = grid first last step.width) :
    s.resampleOver s.interval step = s := by
  rcases h with hempty | hgrid
  · exact resampleOver_eq_self (.inl hempty)
  · have hspans := s.spans_interval
    rw [hgrid] at hspans
    exact resampleOver_eq_self_of_spans step hspans (.inr hgrid)

theorem resample_none (s : PeriodicSeries) :
    s.resample none = s.resampleOver s.interval (.ofRate s.defaultRate) := by
  unfold resample
  rw [Option.getD_none]

theorem resample_none_eq_self (hwhole : WholeMilliseconds step.width)
    (h : s.times = ∅ ∨ s.times = grid first last step.width) :
    s.resample none = s := by
  rw [resample_none]
  rcases Nat.lt_or_ge s.size 2 with hfew | hmany
  · rcases exists_times_eq_grid_self hfew with hempty | ⟨t, ht⟩
    · exact resampleOver_eq_self (.inl hempty)
    · exact resampleOver_interval_eq_self (.inr (ht _))
  · rcases h with hempty | hgrid
    · exact resampleOver_eq_self (.inl hempty)
    · have hdefault : s.defaultRate = step.width := by
        unfold defaultRate
        rw [rate_of_times_eq_grid hgrid hmany, hwhole.rounded]
      rw [hdefault, ofRate_width]
      exact resampleOver_interval_eq_self (.inr hgrid)

end Series

theorem times_resampleOver_interval (s : PeriodicSeries) (step : GridStep) :
    (s.resampleOver s.interval step).times = ∅ ∨
      (s.resampleOver s.interval step).times =
        grid s.interval.lo s.interval.hi step.width := by
  rcases Nat.eq_zero_or_pos s.size with hnone | hsize
  · left
    have hempty := times_eq_empty_iff.mpr hnone
    rw [resampleOver_eq_self (.inl hempty), hempty]
  · right
    have hsome := times_nonempty_iff.mpr hsize
    rw [times_resampleOver hsize,
      setOf_mem_gridTimes (s.spans_interval.isEmpty_eq_false hsome)]

theorem wholeMilliseconds_ofRate {nanoseconds : UInt64}
    (h : WholeMilliseconds nanoseconds) :
    WholeMilliseconds (GridStep.ofRate nanoseconds).width := by
  rcases h with ⟨k, hk, hwhole⟩
  have hwidth : (GridStep.ofRate nanoseconds).width = nanoseconds := by
    apply if_pos
    rw [UInt64.le_iff_toNat_le, hwhole]
    change 1 ≤ k * 1000000
    omega
  rw [hwidth]
  exact ⟨k, hk, hwhole⟩

theorem resample_resample (s : PeriodicSeries) (rate : Option UInt64) :
    (s.resample rate).resample rate = s.resample rate := by
  cases rate with
  | some rate =>
      exact resampleOver_interval_eq_self
        (times_resampleOver_interval s (.ofRate rate))
  | none =>
      -- The second rate is that of the resampled series.
      rw [resample_none s]
      exact resample_none_eq_self
        (wholeMilliseconds_ofRate (wholeMilliseconds_rounded s.rate))
        (times_resampleOver_interval s (.ofRate s.defaultRate))

end PeriodicSeries

/-! ## Sums that are words -/

theorem checkedAdd_eq_some_iff {a b total : UInt64} :
    checkedAdd a b = some total ↔ a.toNat + b.toNat = total.toNat := by
  unfold checkedAdd
  split
  · next hwrapped =>
    constructor
    · intro h
      cases h
    · intro h
      -- An exact sum would not be less than what was added to.
      have hsum : a + b = total := by
        apply UInt64.toNat_inj.mp
        rw [UInt64.toNat_add, h, Nat.mod_eq_of_lt total.toNat_lt]
      rw [hsum, UInt64.lt_iff_toNat_lt, ← h] at hwrapped
      exact absurd (Nat.le_add_right _ _) (Nat.not_le.mpr hwrapped)
  · next hexact =>
    rw [Option.some.injEq, ← UInt64.toNat_inj,
      PeriodicSeries.toNat_add_of_not_lt hexact]

theorem foldlM_checkedAdd_eq_some_iff {words : List UInt64}
    {start total : UInt64} :
    words.foldlM checkedAdd start = some total ↔
      start.toNat + (words.map UInt64.toNat).sum = total.toNat := by
  induction words generalizing start with
  | nil =>
      rw [List.foldlM_nil, List.map_nil, List.sum_nil, Nat.add_zero,
        UInt64.toNat_inj]
      exact Option.some_inj
  | cons word rest ih =>
      rw [List.foldlM_cons, List.map_cons, List.sum_cons, ← Nat.add_assoc]
      show (checkedAdd start word).bind _ = _ ↔ _
      rw [Option.bind_eq_some_iff]
      constructor
      · intro h
        rcases h with ⟨next, hnext, hrest⟩
        rw [checkedAdd_eq_some_iff.mp hnext]
        exact ih.mp hrest
      · intro h
        have hword : start.toNat + word.toNat < 2 ^ 64 :=
          Nat.lt_of_le_of_lt (h ▸ Nat.le_add_right _ _) total.toNat_lt
        have hnext : start.toNat + word.toNat =
            (UInt64.ofNat (start.toNat + word.toNat)).toNat := by
          rw [UInt64.toNat_ofNat', Nat.mod_eq_of_lt hword]
        rw [hnext] at h
        exact ⟨_, checkedAdd_eq_some_iff.mpr hnext, ih.mpr h⟩

theorem checkedSum_eq_some_iff {words : List UInt64} {total : UInt64} :
    checkedSum words = some total ↔
      (words.map UInt64.toNat).sum = total.toNat := by
  unfold checkedSum
  rw [foldlM_checkedAdd_eq_some_iff, UInt64.toNat_zero, Nat.zero_add]

theorem exists_checkedSum_iff {words : List UInt64} :
    (∃ total, checkedSum words = some total) ↔
      (words.map UInt64.toNat).sum < 2 ^ 64 := by
  constructor
  · intro h
    rcases h with ⟨total, htotal⟩
    rw [checkedSum_eq_some_iff.mp htotal]
    exact total.toNat_lt
  · intro h
    refine ⟨UInt64.ofNat (words.map UInt64.toNat).sum, ?_⟩
    rw [checkedSum_eq_some_iff, UInt64.toNat_ofNat', Nat.mod_eq_of_lt h]

theorem sum_filter_positive (rates : List UInt64) :
    ((rates.filter fun r => r > 0).map UInt64.toNat).sum =
      (rates.map UInt64.toNat).sum := by
  induction rates with
  | nil =>
      rfl
  | cons r rest ih =>
      rw [List.map_cons, List.sum_cons, ← ih]
      by_cases hr : r > 0
      · rw [List.filter_cons_of_pos (by simpa using hr), List.map_cons,
          List.sum_cons]
      · have hzero : r = 0 := by
          apply UInt64.toNat_inj.mp
          rw [gt_iff_lt, UInt64.lt_iff_toNat_lt] at hr
          exact Nat.eq_zero_of_not_pos hr
        rw [List.filter_cons_of_neg (by simp [hr]), hzero, UInt64.toNat_zero,
          Nat.zero_add]

theorem mean_of_eq {rates : List UInt64} {width total : UInt64}
    (hwidth : 0 < width.toNat) (hne : rates ≠ [])
    (hall : ∀ r ∈ rates, r = width) (htotal : checkedSum rates = some total) :
    total / UInt64.ofNat rates.length = width := by
  have hsum : rates.length * width.toNat = total.toNat := by
    rw [← checkedSum_eq_some_iff.mp htotal, List.eq_replicate_of_mem hall,
      List.map_replicate, List.sum_replicate_nat, List.length_replicate]
  have hcount : (UInt64.ofNat rates.length).toNat = rates.length := by
    have hword := total.toNat_lt
    have hfew := Nat.le_mul_of_pos_right rates.length hwidth
    rw [UInt64.toNat_ofNat', Nat.mod_eq_of_lt]
    omega
  apply UInt64.toNat_inj.mp
  rw [UInt64.toNat_div, hcount, ← hsum,
    Nat.mul_div_cancel_left _ (List.length_pos_iff.mpr hne)]

/-! ## Groups -/

namespace SeriesGroup

open PeriodicSeries

def rateSum (g : SeriesGroup) : Nat :=
  ((g.series.map PeriodicSeries.rate).map UInt64.toNat).sum

theorem exists_rate?_iff {g : SeriesGroup} :
    (∃ rate, g.rate? = some rate) ↔ g.rateSum < 2 ^ 64 := by
  have hrates : g.rateSum = (g.rates.map UInt64.toNat).sum :=
    (sum_filter_positive _).symm
  rw [hrates]
  unfold rate?
  split
  · next hnone =>
    rw [List.isEmpty_iff.mp hnone]
    exact iff_of_true ⟨0, rfl⟩ (Nat.two_pow_pos 64)
  · rw [← exists_checkedSum_iff]
    simp only [Option.map_eq_some_iff]
    constructor
    · intro h
      rcases h with ⟨_, total, htotal, _⟩
      exact ⟨total, htotal⟩
    · intro h
      rcases h with ⟨total, htotal⟩
      exact ⟨_, total, htotal, rfl⟩

theorem rate?_eq_none_iff {g : SeriesGroup} :
    g.rate? = none ↔ 2 ^ 64 ≤ g.rateSum := by
  rw [← Nat.not_lt, ← exists_rate?_iff, ← Option.ne_none_iff_exists',
    not_not]

theorem resample?_none (g : SeriesGroup) :
    g.resample? none = g.rate?.map fun rate =>
      g.resampleOver (.ofRate (roundedToMillisecond rate)) :=
  rfl

/-- All series that have samples have them at the times of one grid. -/
def OnGrid (g : SeriesGroup) (first last : Time) (width : UInt64) : Prop :=
  ∀ s ∈ g.series, s.times = ∅ ∨ s.times = grid first last width

section Grid

variable {g : SeriesGroup} {first last : Time} {step : GridStep}

theorem onGrid_resampleOver (g : SeriesGroup) (step : GridStep) :
    (g.resampleOver step).OnGrid g.interval.lo g.interval.hi step.width := by
  intro resampled hresampled
  rcases List.mem_map.mp hresampled with ⟨s, hs, rfl⟩
  rcases Nat.eq_zero_or_pos s.size with hnone | hsize
  · left
    have hempty := times_eq_empty_iff.mpr hnone
    rw [resampleOver_eq_self (.inl hempty), hempty]
  · right
    have hsome := times_nonempty hs hsize
    rw [times_resampleOver hsize,
      setOf_mem_gridTimes (g.spans_interval.isEmpty_eq_false hsome)]

theorem OnGrid.times_eq (h : g.OnGrid first last step.width) :
    g.times = ∅ ∨ g.times = grid first last step.width := by
  rcases Set.eq_empty_or_nonempty g.times with hempty | hsome
  · exact .inl hempty
  · right
    have hgrid : ∀ s ∈ g.series, ∀ t ∈ s.times,
        s.times = grid first last step.width := by
      intro s hs t ht
      exact (h s hs).resolve_left fun hempty => hempty.le ht
    ext t
    constructor
    · intro ht
      rcases ht with ⟨s, hs, ht⟩
      exact hgrid s hs t ht ▸ ht
    · intro ht
      rcases hsome with ⟨u, s, hs, hu⟩
      exact ⟨s, hs, hgrid s hs u hu ▸ ht⟩

theorem OnGrid.resampleOver_eq_self (h : g.OnGrid first last step.width) :
    g.resampleOver step = g := by
  have hspans := g.spans_interval
  have hkept : ∀ s ∈ g.series, s.resampleOver g.interval step = s := by
    intro s hs
    rcases h.times_eq with hempty | hgrid
    · apply PeriodicSeries.resampleOver_eq_self
      left
      rw [Set.eq_empty_iff_forall_notMem] at hempty ⊢
      intro t ht
      exact hempty t ⟨s, hs, ht⟩
    · rw [hgrid] at hspans
      exact resampleOver_eq_self_of_spans step hspans (h s hs)
  have hseries : g.series.map (fun s => s.resampleOver g.interval step) =
      g.series := by
    rw [List.map_congr_left hkept, List.map_id']
  exact congrArg SeriesGroup.mk hseries

theorem OnGrid.rate_of_mem (h : g.OnGrid first last step.width)
    {s : PeriodicSeries} (hs : s ∈ g.series) (hsize : 2 ≤ s.size) :
    s.rate = step.width := by
  rcases h s hs with hempty | hgrid
  · rw [times_eq_empty_iff.mp hempty] at hsize
    cases hsize
  · exact rate_of_times_eq_grid hgrid hsize

theorem OnGrid.exists_grid_self (h : g.OnGrid first last step.width)
    (hfew : ∀ s ∈ g.series, s.size < 2) :
    ∃ t, ∀ width, g.OnGrid t t width := by
  by_cases hempty : ∀ s ∈ g.series, s.times = ∅
  · exact ⟨0, fun width s hs => .inl (hempty s hs)⟩
  · simp only [not_forall] at hempty
    rcases hempty with ⟨s, hs, hsome⟩
    rcases exists_times_eq_grid_self (hfew s hs) with hnone | ⟨t, ht⟩
    · exact absurd hnone hsome
    · refine ⟨t, ?_⟩
      intro width u hu
      have hgrid := (h s hs).resolve_left hsome
      rw [← ht width, hgrid]
      exact h u hu

theorem OnGrid.width_mem_rates (h : g.OnGrid first last step.width)
    {s : PeriodicSeries} (hs : s ∈ g.series) (hsize : 2 ≤ s.size) :
    step.width ∈ g.rates := by
  apply List.mem_filter.mpr
  refine ⟨?_, decide_eq_true step.positive⟩
  rw [← h.rate_of_mem hs hsize]
  exact List.mem_map_of_mem hs

theorem OnGrid.eq_width_of_mem_rates (h : g.OnGrid first last step.width)
    {r : UInt64} (hr : r ∈ g.rates) : r = step.width := by
  rcases List.mem_filter.mp hr with ⟨hrate, hpositive⟩
  rcases List.mem_map.mp hrate with ⟨s, hs, rfl⟩
  rcases Nat.lt_or_ge s.size 2 with hfew | hmany
  · rw [rate_of_size_lt_two hfew] at hpositive
    cases hpositive
  · exact h.rate_of_mem hs hmany

theorem OnGrid.rate_eq (h : g.OnGrid first last step.width) {rate : UInt64}
    (hrate : g.rate? = some rate) :
    (∀ s ∈ g.series, s.size < 2) ∨ rate = step.width := by
  unfold rate? at hrate
  split at hrate
  · next hnone =>
    left
    intro s hs
    apply Nat.not_le.mp
    intro hsize
    have hmem := h.width_mem_rates hs hsize
    rw [List.isEmpty_iff.mp hnone] at hmem
    cases hmem
  · next hsome =>
    right
    rcases Option.map_eq_some_iff.mp hrate with ⟨total, htotal, rfl⟩
    apply mean_of_eq (positive_width step)
      (fun hnil => hsome (List.isEmpty_iff.mpr hnil)) _ htotal
    intro r hr
    exact h.eq_width_of_mem_rates hr

theorem OnGrid.resample?_none_eq_self (h : g.OnGrid first last step.width)
    (hwhole : WholeMilliseconds step.width) (hsum : g.rateSum < 2 ^ 64) :
    g.resample? none = some g := by
  rcases exists_rate?_iff.mpr hsum with ⟨rate, hrate⟩
  rw [resample?_none, hrate, Option.map_some, Option.some.injEq]
  rcases h.rate_eq hrate with hfew | hwidth
  · rcases h.exists_grid_self hfew with ⟨t, ht⟩
    exact (ht _).resampleOver_eq_self
  · rw [hwidth, hwhole.rounded, ofRate_width]
    exact h.resampleOver_eq_self

end Grid

variable {g resampled : SeriesGroup}

theorem resample?_none_eq_none_iff :
    g.resample? none = none ↔ 2 ^ 64 ≤ g.rateSum := by
  rw [resample?_none, Option.map_eq_none_iff, rate?_eq_none_iff]

theorem exists_resample?_none (h : g.rateSum < 2 ^ 64) :
    ∃ resampled, g.resample? none = some resampled := by
  apply Option.ne_none_iff_exists'.mp
  intro hnone
  exact Nat.not_le.mpr h (resample?_none_eq_none_iff.mp hnone)

theorem resample?_none_again (h : g.resample? none = some resampled)
    (hsum : resampled.rateSum < 2 ^ 64) :
    resampled.resample? none = some resampled := by
  rcases Option.map_eq_some_iff.mp h with ⟨rate, _, rfl⟩
  exact (onGrid_resampleOver g _).resample?_none_eq_self
    (wholeMilliseconds_ofRate (wholeMilliseconds_rounded rate)) hsum

end SeriesGroup

namespace PeriodicSeries

/-- Resampling a second time at the same rate changes nothing. This holds of
every series, at every rate and at its default rate, and of every group at every
rate. The default rate of a group is a mean, and each resampling at it fails
exactly if the sum of the rates that it starts from is no word. -/
theorem resampling_is_idempotent :
    (∀ (s : PeriodicSeries) (rate : Option UInt64),
      (s.resample rate).resample rate = s.resample rate) ∧
    ∀ g : SeriesGroup,
      (∀ rate : UInt64, ∃ resampled,
        g.resample? (some rate) = some resampled ∧
        resampled.resample? (some rate) = some resampled) ∧
      (g.resample? none = none ↔ 2 ^ 64 ≤ g.rateSum) ∧
      (g.rateSum < 2 ^ 64 → ∃ resampled,
        g.resample? none = some resampled ∧
        resampled.resample? none =
          if resampled.rateSum < 2 ^ 64 then some resampled else none) := by
  refine ⟨resample_resample, ?_⟩
  intro g
  refine ⟨?_, SeriesGroup.resample?_none_eq_none_iff, ?_⟩
  · intro rate
    have hgrid := g.onGrid_resampleOver (.ofRate rate)
    exact ⟨_, rfl, congrArg some hgrid.resampleOver_eq_self⟩
  · intro hsum
    rcases SeriesGroup.exists_resample?_none hsum with
      ⟨resampled, hresampled⟩
    refine ⟨resampled, hresampled, ?_⟩
    split
    · next hafter =>
      exact SeriesGroup.resample?_none_again hresampled hafter
    · next hafter =>
      exact SeriesGroup.resample?_none_eq_none_iff.mpr (Nat.not_lt.mp hafter)

def sampledOnce : SeriesGroup :=
  ⟨[((new "cycles" .count).add 0 5).add 2000000 9,
    (new "misses" .count).add 0 7]⟩

/-- The series with one sample has no rate at first, and the rate of the other
one in the end. -/
theorem resampling_is_idempotent_at_mean_rate :
    sampledOnce.rateSum = 2000000 ∧
      ∃ resampled, sampledOnce.resample? none = some resampled ∧
        resampled.rateSum = 4000000 ∧
        resampled.resample? none = some resampled := by
  have hbefore : sampledOnce.rateSum = 2000000 := by
    cbv
  have hfirst : sampledOnce.resample? none =
      some ⟨[((new "cycles" .count).add 0 5).add 2000000 9,
        ((new "misses" .count).add 0 7).add 2000000 7]⟩ := by
    cbv
  have hword : sampledOnce.rateSum < 2 ^ 64 := by
    rw [hbefore]
    decide
  rcases (resampling_is_idempotent.2 sampledOnce).2.2 hword with
    ⟨resampled, hresampled, hagain⟩
  have hafter : resampled.rateSum = 4000000 := by
    rw [hfirst] at hresampled
    cases hresampled
    decide
  refine ⟨hbefore, resampled, hresampled, hafter, ?_⟩
  rw [hagain, hafter, if_pos (by decide)]

/-- A series that is sampled twice, far apart, and one that is sampled once. -/
def farApart : SeriesGroup :=
  ⟨[((new "cycles" .count).add 0 0).add 18000000000000000000 0,
    (new "misses" .count).add 0 0]⟩

/-- One rate is a word, but on the common grid both series have it, and the sum
of the two is no word. -/
theorem sum_on_common_grid_overflows :
    ¬∀ (g : SeriesGroup) (rate : Option UInt64), g.rateSum < 2 ^ 64 →
      ∃ resampled, g.resample? rate = some resampled ∧
        resampled.resample? rate = some resampled := by
  intro hall
  let common : SeriesGroup :=
    ⟨[((new "cycles" .count).add 0 0).add 18000000000000000000 0,
      ((new "misses" .count).add 0 0).add 18000000000000000000 0]⟩
  have hsum : farApart.rateSum = 18000000000000000000 := by
    cbv
  have hmean : farApart.rate? = some 18000000000000000000 := by
    cbv
  have hwhole : roundedToMillisecond 18000000000000000000 =
      18000000000000000000 := by
    decide
  have hresampled : farApart.resampleOver
      (GridStep.ofRate 18000000000000000000) = common := by
    cbv
  have hfirst : farApart.resample? none = some common := by
    rw [SeriesGroup.resample?_none, hmean, Option.map_some, hwhole, hresampled]
  have hcommon : common.rateSum = 36000000000000000000 := by
    decide
  rcases hall farApart none (by rw [hsum]; decide) with
    ⟨resampled, hresampled, hagain⟩
  rw [hfirst] at hresampled
  cases hresampled
  have hfails : common.resample? none = none := by
    rw [SeriesGroup.resample?_none_eq_none_iff, hcommon]
    decide
  rw [hfails] at hagain
  cases hagain

end PeriodicSeries
end CudaProfile
