import Mathlib.Order.Bounds.Basic
import CudaProfile.Sampling.Periodic
/-!
# Grids of times

Resampling walks from the first time of an interval to the last in equal steps.
A step ends the walk when its sum is beyond the last time or no word any more,
so every walk ends, also at the end of time, and what it visits are the times of
the interval that lie whole multiples of the step after its first.
-/

namespace CudaProfile
namespace PeriodicSeries

/-- The times at whole multiples of a width from the first up to the last. -/
def grid (first last : Time) (width : UInt64) : Set Time :=
  {t | ∃ k : Nat, t.toNat = first.toNat + k * width.toNat ∧ t ≤ last}

section Walk

variable {last time : Time} {step : GridStep}

theorem positive_width (step : GridStep) : 0 < step.width.toNat :=
  UInt64.lt_iff_toNat_lt.mp step.positive

/-! ## One step -/

theorem lt_of_nextTime? {next : Time}
    (h : nextTime? last step time = some next) : time < next := by
  have hstep := positive_width step
  rw [UInt64.lt_iff_toNat_lt, (nextTime?_eq_some_iff.mp h).1]
  omega

theorem nextTime?_eq_none_iff :
    nextTime? last step time = none ↔
      last.toNat < time.toNat + step.width.toNat := by
  constructor
  · intro hnone
    apply Nat.not_le.mp
    intro hle
    have hword : (UInt64.ofNat (time.toNat + step.width.toNat)).toNat =
        time.toNat + step.width.toNat :=
      UInt64.toNat_ofNat_of_lt' (Nat.lt_of_le_of_lt hle last.toNat_lt)
    have hsome := nextTime?_eq_some_iff.mpr
      ⟨hword, UInt64.le_iff_toNat_le.mpr (hword ▸ hle)⟩
    rw [hnone] at hsome
    cases hsome
  · intro hlt
    rw [Option.eq_none_iff_forall_ne_some]
    intro next hsome
    rcases nextTime?_eq_some_iff.mp hsome with ⟨hnext, hle⟩
    rw [UInt64.le_iff_toNat_le, hnext] at hle
    exact absurd hlt (Nat.not_lt.mpr hle)

theorem first_mem_grid {width : UInt64} (hle : time ≤ last) :
    time ∈ grid time last width := by
  refine ⟨0, ?_, hle⟩
  rw [Nat.zero_mul, Nat.add_zero]

theorem mem_grid_of_nextTime? {next : Time}
    (h : nextTime? last step time = some next) (t : Time) :
    t ∈ grid time last step.width ↔
      t = time ∨ t ∈ grid next last step.width := by
  rcases nextTime?_eq_some_iff.mp h with ⟨hnext, hle⟩
  constructor
  · intro ht
    rcases ht with ⟨k, hk, htlast⟩
    cases k with
    | zero =>
        left
        apply UInt64.toNat_inj.mp
        rw [hk, Nat.zero_mul, Nat.add_zero]
    | succ k =>
        right
        refine ⟨k, ?_, htlast⟩
        rw [hk, Nat.succ_mul, hnext, Nat.add_assoc, Nat.add_comm step.width.toNat]
  · intro ht
    rcases ht with rfl | ht
    · exact first_mem_grid (Std.le_trans (Std.le_of_lt (lt_of_nextTime? h)) hle)
    · rcases ht with ⟨k, hk, htlast⟩
      refine ⟨k + 1, ?_, htlast⟩
      rw [hk, Nat.succ_mul, hnext, Nat.add_assoc, Nat.add_comm step.width.toNat]

theorem mem_grid_of_nextTime?_eq_none (h : nextTime? last step time = none)
    (hle : time ≤ last) (t : Time) :
    t ∈ grid time last step.width ↔ t = time := by
  have hlast := nextTime?_eq_none_iff.mp h
  constructor
  · intro ht
    rcases ht with ⟨k, hk, htlast⟩
    cases k with
    | zero =>
        apply UInt64.toNat_inj.mp
        rw [hk, Nat.zero_mul, Nat.add_zero]
    | succ k =>
        rw [UInt64.le_iff_toNat_le, hk, Nat.succ_mul] at htlast
        omega
  · intro ht
    rw [ht]
    exact first_mem_grid hle

/-! ## The whole walk -/

theorem mem_timesFrom (visited : List Time) (hle : time ≤ last) (t : Time) :
    t ∈ timesFrom last step visited time ↔
      t ∈ visited ∨ t ∈ grid time last step.width := by
  fun_induction timesFrom last step visited time with
  | case1 visited time next hnext ih =>
      rw [ih (nextTime?_eq_some_iff.mp hnext).2, mem_grid_of_nextTime? hnext,
        List.mem_cons, or_assoc, or_left_comm]
  | case2 visited time hnone =>
      rw [mem_grid_of_nextTime?_eq_none hnone hle, List.mem_reverse,
        List.mem_cons, or_comm]

theorem ascending_timesFrom {visited : List Time}
    (h : (time :: visited).Pairwise fun s t => t < s) :
    (timesFrom last step visited time).Pairwise fun s t => s < t := by
  fun_induction timesFrom last step visited time with
  | case1 visited time next hnext ih =>
      apply ih
      have hlater := lt_of_nextTime? hnext
      rw [List.pairwise_cons]
      refine ⟨?_, h⟩
      rw [List.forall_mem_cons]
      refine ⟨hlater, ?_⟩
      intro t ht
      exact Std.lt_trans ((List.pairwise_cons.mp h).1 t ht) hlater
  | case2 visited time hnone =>
      exact List.pairwise_reverse.mpr h

/-- A walk takes as many rounds as the step fits into the rest of the interval,
and one for its first time. -/
theorem length_timesFrom (visited : List Time) (hle : time ≤ last) :
    (timesFrom last step visited time).length =
      visited.length + (last.toNat - time.toNat) / step.width.toNat + 1 := by
  fun_induction timesFrom last step visited time with
  | case1 visited time next hnext ih =>
      rcases nextTime?_eq_some_iff.mp hnext with ⟨hsum, hlast⟩
      have hrest : last.toNat - time.toNat =
          last.toNat - next.toNat + step.width.toNat := by
        rw [UInt64.le_iff_toNat_le] at hlast
        omega
      rw [ih hlast, hrest, Nat.add_div_right _ (positive_width step),
        List.length_cons]
      omega
  | case2 visited time hnone =>
      have hrest : last.toNat - time.toNat < step.width.toNat := by
        have hlast := nextTime?_eq_none_iff.mp hnone
        rw [UInt64.le_iff_toNat_le] at hle
        omega
      rw [Nat.div_eq_of_lt hrest, List.length_reverse, List.length_cons,
        Nat.add_zero]

end Walk

/-! ## The times of an interval -/

section Times

variable {interval : TimeInterval} {step : GridStep}

theorem mem_gridTimes_iff (h : interval.isEmpty = false) {t : Time} :
    t ∈ gridTimes interval step ↔
      t ∈ grid interval.lo interval.hi step.width := by
  have hle : interval.lo ≤ interval.hi :=
    Std.not_lt.mp (of_decide_eq_false h)
  unfold gridTimes
  rw [if_neg (Bool.eq_false_iff.mp h), mem_timesFrom [] hle]
  simp

theorem ascending_gridTimes :
    (gridTimes interval step).Pairwise fun s t => s < t := by
  unfold gridTimes
  split
  · exact List.Pairwise.nil
  · exact ascending_timesFrom (List.pairwise_singleton _ _)

theorem length_gridTimes (h : interval.isEmpty = false) :
    (gridTimes interval step).length =
      (interval.hi.toNat - interval.lo.toNat) / step.width.toNat + 1 := by
  have hle : interval.lo ≤ interval.hi :=
    Std.not_lt.mp (of_decide_eq_false h)
  unfold gridTimes
  rw [if_neg (Bool.eq_false_iff.mp h), length_timesFrom [] hle]
  simp

end Times

end PeriodicSeries
end CudaProfile
