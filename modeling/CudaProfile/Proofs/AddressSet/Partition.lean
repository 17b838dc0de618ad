import CudaProfile.AddressSet.Partition
import CudaProfile.Proofs.AddressSet.RangeList
/-!
# What the bitmaps of a list contain

However a canonical list is cut, its bitmaps together have the addresses of the
list: a cut at a gap parts the ranges, a cut at the width limit parts the only
range there is, and one bitmap from the first to the last address loses none.
-/

namespace CudaProfile

open RangeList

namespace Bitmap

theorem member_ofRanges (range : AddressRange) (ranges : List AddressRange)
    (x : Address) :
    (ofRanges range ranges).member x =
      (range.contains x && contains ranges x) := by
  unfold member
  change contains (normalize (ranges.map range.meet)) x = _
  rw [contains_normalize]
  induction ranges with
  | nil =>
      simp
  | cons r rest ih =>
      rw [List.map_cons, contains_cons, ih, contains_cons,
        Interval.contains_meet, Bool.and_or_distrib_left]

end Bitmap

namespace RangeList

theorem Canonical.left {a b : List AddressRange} (h : Canonical (a ++ b)) :
    Canonical a := by
  rw [canonical_iff] at h ⊢
  rcases h with ⟨hfull, hpairs⟩
  exact ⟨fun r hr => hfull r (List.mem_append_left b hr),
    (List.pairwise_append.mp hpairs).1⟩

theorem Canonical.right {a b : List AddressRange} (h : Canonical (a ++ b)) :
    Canonical b := by
  rw [canonical_iff] at h ⊢
  rcases h with ⟨hfull, hpairs⟩
  exact ⟨fun r hr => hfull r (List.mem_append_right a hr),
    (List.pairwise_append.mp hpairs).2.1⟩

theorem canonical_singleton {r : AddressRange} (h : r.isEmpty = false) :
    Canonical [r] := by
  rw [canonical_iff]
  simpa using Interval.isEmpty_eq_false_iff.mp h

theorem hi_le_getLast {ranges : List AddressRange} (h : Canonical ranges)
    (hne : ranges ≠ []) {r : AddressRange} (hr : r ∈ ranges) :
    r.hi ≤ (ranges.getLast hne).hi := by
  rcases canonical_iff.mp h with ⟨hfull, hpairs⟩
  have hsplit := List.dropLast_concat_getLast hne
  rw [← hsplit] at hr hpairs
  rcases List.mem_append.mp hr with hinit | hlast
  · have hfar := (List.pairwise_append.mp hpairs).2.2 r hinit
      (ranges.getLast hne) (List.mem_singleton_self _)
    have hfull := hfull (ranges.getLast hne) (List.getLast_mem hne)
    exact UInt64.le_trans (UInt64.le_of_lt (lt_of_toNat_add_two_le hfar)) hfull
  · rw [List.mem_singleton.mp hlast]
    exact UInt64.le_refl _

theorem within_bounds {first : AddressRange} {others : List AddressRange}
    (h : Canonical (first :: others)) {x : Address}
    (hx : contains (first :: others) x = true) :
    (⟨first.lo, ((first :: others).getLast (by simp)).hi⟩ :
      Interval).contains x = true := by
  rcases contains_iff.mp hx with ⟨r, hr, hlo, hhi⟩
  have hfirst := lo_le_of_mem (canonical_iff.mp h) hr
  have hlast := hi_le_getLast h (by simp) hr
  rw [Interval.contains_iff]
  exact ⟨UInt64.le_trans hfirst hlo, UInt64.le_trans hhi hlast⟩

end RangeList

namespace Partition

theorem member_cover {first : AddressRange} {others : List AddressRange}
    (h : Canonical (first :: others)) (x : Address) :
    (cover (first :: others) first.lo
        ((first :: others).getLast (by simp)).hi).member x =
      contains (first :: others) x := by
  unfold cover
  rw [Bitmap.member_ofRanges]
  cases hx : contains (first :: others) x with
  | false =>
      rw [Bool.and_false]
  | true =>
      rw [within_bounds h hx, Bool.and_true]

theorem widestGap?_eq_none {first : AddressRange} {others : List AddressRange}
    (h : widestGap? (first :: others) = none) : others = [] := by
  cases others with
  | nil =>
      rfl
  | cons second rest =>
      unfold widestGap? at h
      split at h
      · cases h
      · simp only at h
        split at h <;> cases h

theorem toNat_limit {range : AddressRange}
    (h : oversized range.lo range.hi = true) (hle : range.lo ≤ range.hi) :
    (range.lo + maxBitmapWidth).toNat = range.lo.toNat + maxBitmapWidth.toNat ∧
      range.lo + maxBitmapWidth ≤ range.hi := by
  have hwidth : maxBitmapWidth ≤ range.hi - range.lo := by
    simpa [oversized] using h
  have hlimit := range.hi.toNat_lt
  rw [UInt64.le_iff_toNat_le, UInt64.toNat_sub_of_le _ _ hle] at hwidth
  rw [UInt64.le_iff_toNat_le] at hle
  have hsum : (range.lo + maxBitmapWidth).toNat =
      range.lo.toNat + maxBitmapWidth.toNat := by
    rw [UInt64.toNat_add]
    omega
  refine ⟨hsum, ?_⟩
  rw [UInt64.le_iff_toNat_le]
  omega

theorem toNat_limit_sub_one {lo : Address}
    (h : (lo + maxBitmapWidth).toNat = lo.toNat + maxBitmapWidth.toNat) :
    (lo + maxBitmapWidth - 1).toNat = lo.toNat + 4294967295 := by
  have hmax : maxBitmapWidth.toNat = 4294967296 := rfl
  have hone : (1 : UInt64).toNat = 1 := rfl
  have hle : (1 : UInt64) ≤ lo + maxBitmapWidth := by
    rw [UInt64.le_iff_toNat_le]
    omega
  rw [UInt64.toNat_sub_of_le _ _ hle]
  omega

theorem contains_cutAtLimit {range : AddressRange}
    (h : oversized range.lo range.hi = true) (hle : range.lo ≤ range.hi)
    (x : Address) :
    ((cutAtLimit range).1.contains x || (cutAtLimit range).2.contains x) =
      range.contains x := by
  rcases toNat_limit h hle with ⟨hsum, hlimit⟩
  have hmax : maxBitmapWidth.toNat = 4294967296 := rfl
  have hpred := toNat_limit_sub_one hsum
  rw [Bool.eq_iff_iff, Bool.or_eq_true]
  simp only [cutAtLimit, Interval.contains_iff, UInt64.le_iff_toNat_le] at *
  omega

theorem nonempty_cutAtLimit {range : AddressRange}
    (h : oversized range.lo range.hi = true) (hle : range.lo ≤ range.hi) :
    (cutAtLimit range).1.isEmpty = false ∧
      (cutAtLimit range).2.isEmpty = false := by
  rcases toNat_limit h hle with ⟨hsum, hlimit⟩
  have hpred := toNat_limit_sub_one hsum
  simp only [cutAtLimit, Interval.isEmpty_eq_false_iff,
    UInt64.le_iff_toNat_le] at *
  omega

theorem member_partition {ranges : List AddressRange} (h : Canonical ranges)
    (x : Address) :
    ((partition ranges).any fun b => b.member x) = contains ranges x := by
  fun_induction partition ranges with
  | case1 =>
      rfl
  | case2 first others lo hi split hsplit hcut ihleft ihright =>
      have happend := (widestGap?_append hsplit).1
      rw [← happend] at h
      rw [List.any_append, ihleft h.left, ihright h.right, ← contains_append,
        happend]
  | case3 first others lo hi split hsplit hkeep =>
      rw [List.any_cons, List.any_nil, Bool.or_false]
      exact member_cover h x
  | case4 first others hnone hover ihleft ihright =>
      have hothers := widestGap?_eq_none hnone
      subst hothers
      have hle := (canonical_iff.mp h).1 first (by simp)
      rcases nonempty_cutAtLimit hover hle with ⟨hfirst, hrest⟩
      rw [List.any_append, ihleft (canonical_singleton hfirst),
        ihright (canonical_singleton hrest), ← contains_append,
        List.singleton_append]
      simp only [contains_cons, contains_nil, Bool.or_false]
      exact contains_cutAtLimit hover hle x
  | case5 first others lo hi hnone hfits =>
      rw [List.any_cons, List.any_nil, Bool.or_false]
      exact member_cover h x

end Partition
end CudaProfile
