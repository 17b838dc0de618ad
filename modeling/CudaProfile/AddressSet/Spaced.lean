import CudaProfile.AddressSet.RangeList
/-!
# Canonical lists of ranges

A list of ranges is canonical when its ranges are not empty, ascend, and leave
at least one address between neighbours. Every normalized list is canonical,
and it stays within bounds that hold of the ranges it is made from.
-/

namespace CudaProfile
namespace RangeList

/-- Ranges that are not empty, none below `lo` or above `hi`, that ascend and
leave at least one address between neighbours. -/
def Spaced (lo hi : Nat) : List AddressRange → Prop
  | [] => True
  | r :: rest =>
      lo ≤ r.lo.toNat ∧ r.lo ≤ r.hi ∧ r.hi.toNat ≤ hi ∧
        Spaced (r.hi.toNat + 2) hi rest

def Within (lo hi : Nat) (r : AddressRange) : Prop :=
  lo ≤ r.lo.toNat ∧ r.lo ≤ r.hi ∧ r.hi.toNat ≤ hi

/-! ## Ascending lists -/

theorem pairwise_ascending {ranges : List AddressRange}
    (h : ∀ r ∈ ranges, r.lo ≤ r.hi) :
    (ascending ranges).Pairwise fun a b => a.lo ≤ b.lo := by
  have hsorted :
      (ascending ranges).Pairwise fun a b => decide (a.order b ≠ .gt) = true :=
    List.pairwise_mergeSort
      (fun a b c hab hbc => by
        rw [decide_eq_true_eq] at *
        exact Interval.order_trans hab hbc)
      (fun a b => by
        rw [Bool.or_eq_true, decide_eq_true_eq, decide_eq_true_eq]
        exact Interval.order_total a b)
      ranges
  refine hsorted.imp_of_mem fun {a b} ha _ hab => ?_
  have hle := h a (List.mem_mergeSort.1 ha)
  rw [decide_eq_true_eq, Interval.order_ne_gt_iff] at hab
  grind

theorem mem_ascending {ranges : List AddressRange} {r : AddressRange} :
    r ∈ ascending ranges ↔ r ∈ ranges :=
  List.mem_mergeSort

/-! ## Joining -/

theorem toNat_add_two_le {a b : Address}
    (h : ¬(a = Interval.maxWord ∨ b ≤ a + 1)) : a.toNat + 2 ≤ b.toNat := by
  have hne : a.toNat ≠ 18446744073709551615 := fun hmax =>
    h (Or.inl (UInt64.toNat_inj.1 hmax))
  have hlt : a + 1 < b := by grind
  have hnat := UInt64.lt_iff_toNat_lt.1 hlt
  rw [UInt64.toNat_add] at hnat
  have hbound := a.toNat_lt
  have hone : (1 : UInt64).toNat = 1 := rfl
  omega

theorem within_hull {lo hi : Nat} {a b : AddressRange} (ha : Within lo hi a)
    (hb : Within lo hi b) (hle : a.lo ≤ b.lo) :
    Within lo hi (a.hull b) ∧ (a.hull b).lo = a.lo := by
  obtain ⟨ha1, ha2, ha3⟩ := ha
  obtain ⟨hb1, hb2, hb3⟩ := hb
  have hsa : ¬a.hi < a.lo := UInt64.not_lt.2 ha2
  have hsb : ¬b.hi < b.lo := UInt64.not_lt.2 hb2
  have hhull : a.hull b = ⟨a.lo, max a.hi b.hi⟩ := by
    simp only [Interval.hull, Interval.isEmpty, hsa, hsb, decide_false]
    simp [Interval.min_eq, hle]
  rw [hhull]
  refine ⟨⟨ha1, ?_, ?_⟩, rfl⟩
  · exact UInt64.le_trans ha2 (Interval.le_max _ _)
  · show (max a.hi b.hi).toNat ≤ hi
    rw [Interval.max_eq]
    split
    · exact hb3
    · exact ha3

theorem spaced_coalesceFrom {lo hi : Nat} {current : AddressRange}
    {ranges : List AddressRange} (hcurrent : Within lo hi current)
    (hranges : ∀ r ∈ ranges, Within lo hi r ∧ current.lo ≤ r.lo)
    (hascending : ranges.Pairwise fun a b => a.lo ≤ b.lo) :
    Spaced lo hi (coalesceFrom current ranges) := by
  induction ranges generalizing lo current with
  | nil =>
      exact ⟨hcurrent.1, hcurrent.2.1, hcurrent.2.2, trivial⟩
  | cons next rest ih =>
      have hnext := hranges next (by simp)
      have hsplit := List.pairwise_cons.1 hascending
      unfold coalesceFrom
      split
      · have hhull := within_hull hcurrent hnext.1 hnext.2
        refine ih hhull.1 (fun r hr => ?_) hsplit.2
        rw [hhull.2]
        exact hranges r (by simp [hr])
      · next hgap =>
        have hfar := toNat_add_two_le (by simpa using hgap)
        refine ⟨hcurrent.1, hcurrent.2.1, hcurrent.2.2, ?_⟩
        refine ih ⟨hfar, hnext.1.2⟩ (fun r hr => ?_) hsplit.2
        have hle := hsplit.1 r hr
        have hnat := UInt64.le_iff_toNat_le.1 hle
        exact ⟨⟨by omega, (hranges r (by simp [hr])).1.2⟩, hle⟩

theorem spaced_normalize {lo hi : Nat} {ranges : List AddressRange}
    (h : ∀ r ∈ ranges, r.isEmpty = false → Within lo hi r) :
    Spaced lo hi (normalize ranges) := by
  have hmem : ∀ r ∈ ascending (ranges.filter fun r => !r.isEmpty),
      Within lo hi r := by
    intro r hr
    have hr := List.mem_filter.1 (mem_ascending.1 hr)
    exact h r hr.1 (by simpa using hr.2)
  have hpairs := pairwise_ascending fun r hr =>
    (hmem r (mem_ascending.2 hr)).2.1
  unfold normalize
  cases hlist : ascending (ranges.filter fun r => !r.isEmpty) with
  | nil =>
      trivial
  | cons first rest =>
      rw [hlist] at hmem hpairs
      have hsplit := List.pairwise_cons.1 hpairs
      exact spaced_coalesceFrom (hmem first (by simp))
        (fun r hr => ⟨hmem r (by simp [hr]), hsplit.1 r hr⟩) hsplit.2

theorem spaced_normalize_meet (range : AddressRange)
    (ranges : List AddressRange) :
    Spaced range.lo.toNat range.hi.toNat
      (normalize (ranges.map range.meet)) := by
  refine spaced_normalize fun r hr hfull => ?_
  obtain ⟨s, _, rfl⟩ := List.mem_map.1 hr
  have hempty : Interval.empty.isEmpty = true := by decide
  unfold Interval.meet at hfull ⊢
  split at hfull
  · simp [hempty] at hfull
  · simp only at hfull ⊢
    split at hfull
    · simp [hempty] at hfull
    · next h1 h2 =>
      rw [if_neg h1, if_neg h2]
      have hle : max range.lo s.lo ≤ min range.hi s.hi := by
        simpa [Interval.isEmpty] using hfull
      refine ⟨UInt64.le_iff_toNat_le.1 ?_, hle, UInt64.le_iff_toNat_le.1 ?_⟩
      · exact Interval.le_max _ _
      · exact Interval.min_le _ _

end RangeList
end CudaProfile
