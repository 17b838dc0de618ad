import Mathlib
import CudaProfile.AddressSet.Basic
import CudaProfile.Proofs.AddressSet.Partition
/-!
# The algebra of address sets

Whatever bitmaps two sets keep, and whether they keep what they hold or what
they lack, the operations on them are the Boolean operations on membership.
-/

namespace CudaProfile

open RangeList

namespace Interval

theorem size_eq {i : Interval} (h : i.isEmpty = false) :
    i.size = (i.hi - i.lo).toNat + 1 := by
  have hle := isEmpty_eq_false_iff.mp h
  rw [UInt64.toNat_sub_of_le _ _ hle]
  simp [size, h]

theorem toNat_lo_add_size {i : Interval} (h : i.isEmpty = false) :
    i.lo.toNat ≤ i.hi.toNat ∧ i.lo.toNat + i.size = i.hi.toNat + 1 := by
  have hle := isEmpty_eq_false_iff.mp h
  rw [UInt64.le_iff_toNat_le] at hle
  refine ⟨hle, ?_⟩
  rw [size, h, if_neg Bool.false_ne_true]
  omega

/-- The width tells whether there are too many words, although that of the full
interval is too small by one. -/
theorem limit_lt_width_iff {i : Interval} (h : i.isEmpty = false) :
    maxBitmapWidth < i.width ↔ 2 ^ 32 < i.size := by
  have hlimit : maxBitmapWidth.toNat = 4294967296 := rfl
  have hmax : maxWord.toNat = 18446744073709551615 := rfl
  have hone : (1 : UInt64).toNat = 1 := rfl
  have hdistance := (i.hi - i.lo).toNat_lt
  rw [size_eq h, UInt64.lt_iff_toNat_lt]
  simp only [width, h]
  split
  · contradiction
  · split
    · next hfull =>
      rw [hfull]
      omega
    · next hless =>
      have hne : (i.hi - i.lo).toNat ≠ maxWord.toNat := fun heq =>
        hless (UInt64.toNat_inj.mp heq)
      rw [UInt64.toNat_add]
      omega

end Interval

namespace AddressSet

/-! ## Stored addresses -/

theorem canonical_storedRanges (s : AddressSet) : Canonical s.storedRanges :=
  canonical_normalize _

theorem contains_storedRanges (s : AddressSet) (x : Address) :
    RangeList.contains s.storedRanges x = s.stores x := by
  unfold storedRanges stores
  rw [contains_normalize, contains_flatMap]
  rfl

theorem contains_eq (s : AddressSet) (x : Address) :
    s.contains x = (RangeList.contains s.storedRanges x != s.complemented) := by
  rw [contains_storedRanges]
  rfl

theorem contains_ofStored {ranges : List AddressRange} (h : Canonical ranges)
    (complemented : Bool) (x : Address) :
    (ofStored ranges complemented).contains x =
      (RangeList.contains ranges x != complemented) := by
  unfold contains stores ofStored
  rw [Partition.member_partition h]

/-! ## Combining sets -/

theorem contains_complement (s : AddressSet) (x : Address) :
    s.complement.contains x = !s.contains x := by
  rw [contains_eq, contains_eq]
  change (RangeList.contains s.storedRanges x != !s.complemented) = _
  cases RangeList.contains s.storedRanges x <;> cases s.complemented <;> rfl

theorem contains_union (s t : AddressSet) (x : Address) :
    (s.union t).contains x = (s.contains x || t.contains x) := by
  have hs := canonical_storedRanges s
  have ht := canonical_storedRanges t
  rw [contains_eq s, contains_eq t]
  unfold union
  cases s.complemented <;> cases t.complemented <;> simp only
  · rw [contains_ofStored (canonical_union _ _), RangeList.contains_union]
    simp
  · rw [contains_ofStored (canonical_difference _ _),
      RangeList.contains_difference hs]
    simp [Bool.or_comm]
  · rw [contains_ofStored (canonical_difference _ _),
      RangeList.contains_difference ht]
    simp
  · rw [contains_ofStored (canonical_intersection hs ht),
      RangeList.contains_intersection hs ht]
    simp

theorem contains_intersection (s t : AddressSet) (x : Address) :
    (s.intersection t).contains x = (s.contains x && t.contains x) := by
  have hs := canonical_storedRanges s
  have ht := canonical_storedRanges t
  rw [contains_eq s, contains_eq t]
  unfold intersection
  cases s.complemented <;> cases t.complemented <;> simp only
  · rw [contains_ofStored (canonical_intersection hs ht),
      RangeList.contains_intersection hs ht]
    simp
  · rw [contains_ofStored (canonical_difference _ _),
      RangeList.contains_difference ht]
    simp
  · rw [contains_ofStored (canonical_difference _ _),
      RangeList.contains_difference hs]
    simp [Bool.and_comm]
  · rw [contains_ofStored (canonical_union _ _), RangeList.contains_union]
    simp

theorem contains_difference (s t : AddressSet) (x : Address) :
    (s.difference t).contains x = (s.contains x && !t.contains x) := by
  unfold difference
  rw [contains_intersection, contains_complement]

theorem contains_symmetricDifference (s t : AddressSet) (x : Address) :
    (s.symmetricDifference t).contains x = (s.contains x != t.contains x) := by
  have hs := canonical_storedRanges s
  have ht := canonical_storedRanges t
  rw [contains_eq s, contains_eq t]
  unfold symmetricDifference
  simp only
  rw [contains_ofStored (canonical_union _ _), RangeList.contains_union,
    RangeList.contains_difference ht, RangeList.contains_difference hs]
  generalize RangeList.contains s.storedRanges x = inFirst
  generalize RangeList.contains t.storedRanges x = inSecond
  cases inFirst <;> cases inSecond <;> cases s.complemented <;>
    cases t.complemented <;> rfl

/-! ## Adding and removing addresses -/

theorem contains_add (s : AddressSet) (ranges : List AddressRange)
    (x : Address) :
    (s.add ranges).contains x =
      (s.contains x || RangeList.contains ranges x) := by
  rw [contains_eq s]
  unfold add
  cases s.complemented <;> simp only [Bool.false_eq_true, ↓reduceIte]
  · rw [contains_ofStored (canonical_union _ _), RangeList.contains_union]
    simp
  · rw [contains_ofStored (canonical_difference _ _),
      RangeList.contains_difference (canonical_normalize _), contains_normalize]
    simp

theorem contains_remove (s : AddressSet) (ranges : List AddressRange)
    (x : Address) :
    (s.remove ranges).contains x =
      (s.contains x && !RangeList.contains ranges x) := by
  rw [contains_eq s]
  unfold remove
  cases s.complemented <;> simp only [Bool.false_eq_true, ↓reduceIte]
  · rw [contains_ofStored (canonical_difference _ _),
      RangeList.contains_difference (canonical_normalize _), contains_normalize]
    simp
  · rw [contains_ofStored (canonical_union _ _), RangeList.contains_union]
    simp

/-- Some range that is not empty holds more addresses than fit into a bitmap. -/
def TooWide (ranges : List AddressRange) : Prop :=
  ∃ r ∈ ranges, r.isEmpty = false ∧ 2 ^ 32 < r.size

theorem tooWide_of_checked {ranges : List AddressRange} {error : Error}
    (h : checked ranges = .error error) :
    TooWide ranges ∧ error.kind = .invalidArgument := by
  unfold checked at h
  simp only at h
  split at h
  · next wide hwide =>
    cases h
    have hmem := List.mem_filter.mp (List.mem_of_find?_eq_some hwide)
    have hwidth := List.find?_some hwide
    have hfull : wide.isEmpty = false := by simpa using hmem.2
    refine ⟨⟨wide, hmem.1, hfull, ?_⟩, rfl⟩
    exact (Interval.limit_lt_width_iff hfull).mp (by simpa using hwidth)
  · cases h

theorem not_tooWide_of_checked {ranges named : List AddressRange}
    (h : checked ranges = .ok named) :
    ¬TooWide ranges ∧ named = ranges.filter fun r => !r.isEmpty := by
  unfold checked at h
  simp only at h
  split at h
  · cases h
  · next hnone =>
    cases h
    refine ⟨?_, rfl⟩
    intro hrefused
    rcases hrefused with ⟨r, hr, hfull, hwide⟩
    have hmem : r ∈ ranges.filter fun r => !r.isEmpty :=
      List.mem_filter.mpr ⟨hr, by simp [hfull]⟩
    have hnot := List.find?_eq_none.mp hnone r hmem
    apply hnot
    simpa using (Interval.limit_lt_width_iff hfull).mpr hwide

/-- A change of a set by ranges: refused when one of them is too wide, which
leaves the set as it was, and otherwise exactly the addresses of the ranges
have become members, or are members no more. -/
structure Changed (s : AddressSet) (ranges : List AddressRange) (added : Bool)
    (o : Outcome AddressSet) : Prop where
  refused_iff : (∃ error, o.refusal = some error) ↔ TooWide ranges
  refused : ∀ error, o.refusal = some error →
    error.kind = .invalidArgument ∧ o.state = s
  done : o.refusal = none → ∀ x,
    o.state.contains x =
      if RangeList.contains ranges x then added else s.contains x

theorem changed_refused {s : AddressSet} {ranges : List AddressRange}
    {error : Error} (h : checked ranges = .error error) (added : Bool) :
    Changed s ranges added (.refused s error) := by
  rcases tooWide_of_checked h with ⟨hwide, hkind⟩
  constructor
  · exact iff_of_true ⟨error, rfl⟩ hwide
  · intro found hfound
    cases hfound
    exact ⟨hkind, rfl⟩
  · intro hnone
    cases hnone

theorem changed_done {s t : AddressSet} {ranges named : List AddressRange}
    {added : Bool} (h : checked ranges = .ok named)
    (ht : ∀ x, t.contains x =
      if RangeList.contains named x then added else s.contains x) :
    Changed s ranges added (.done t) := by
  rcases not_tooWide_of_checked h with ⟨hfits, rfl⟩
  constructor
  · apply iff_of_false _ hfits
    intro hrefused
    rcases hrefused with ⟨error, herror⟩
    cases herror
  · intro error herror
    cases herror
  · intro _ x
    rw [← contains_nonempty ranges]
    exact ht x

theorem changed_insertRanges (s : AddressSet) (ranges : List AddressRange) :
    Changed s ranges true (s.insertRanges ranges) := by
  unfold insertRanges
  cases h : checked ranges with
  | error error =>
      exact changed_refused h true
  | ok named =>
      apply changed_done h
      intro x
      rw [contains_add]
      cases RangeList.contains named x <;> simp

theorem changed_removeRange (s : AddressSet) (range : AddressRange) :
    Changed s [range] false (s.removeRange range) := by
  unfold removeRange
  cases h : checked [range] with
  | error error =>
      exact changed_refused h false
  | ok named =>
      apply changed_done h
      intro x
      rw [contains_remove]
      cases RangeList.contains named x <;> simp

theorem contains_insert (s : AddressSet) (address x : Address) :
    (s.insert address).contains x =
      if x = address then true else s.contains x := by
  unfold insert
  rw [contains_add, contains_cons, contains_nil, Interval.contains_point]
  by_cases hx : x = address <;> simp [hx]

/-! ## Making sets -/

theorem contains_ofAddresses (addresses : List Address) (x : Address) :
    (ofAddresses addresses).contains x = decide (x ∈ addresses) := by
  unfold ofAddresses
  rw [contains_ofStored (canonical_normalize _), contains_normalize]
  induction addresses with
  | nil =>
      simp [RangeList.contains]
  | cons address rest ih =>
      rw [List.map_cons, contains_cons, Interval.contains_point]
      rw [Bool.bne_false] at ih ⊢
      rw [ih]
      simp

theorem ofRanges_eq_error_iff (ranges : List AddressRange) :
    (∃ error, ofRanges ranges = .error error) ↔ TooWide ranges := by
  unfold ofRanges
  cases h : checked ranges with
  | error error =>
      exact iff_of_true ⟨error, rfl⟩ (tooWide_of_checked h).1
  | ok named =>
      apply iff_of_false _ (not_tooWide_of_checked h).1
      intro hrefused
      rcases hrefused with ⟨error, herror⟩
      cases herror

theorem kind_of_ofRanges {ranges : List AddressRange} {error : Error}
    (h : ofRanges ranges = .error error) : error.kind = .invalidArgument := by
  unfold ofRanges at h
  cases hchecked : checked ranges with
  | error found =>
      rw [hchecked] at h
      cases h
      exact (tooWide_of_checked hchecked).2
  | ok named =>
      rw [hchecked] at h
      cases h

theorem contains_ofRanges {ranges : List AddressRange} {set : AddressSet}
    (h : ofRanges ranges = .ok set) (x : Address) :
    set.contains x = RangeList.contains ranges x := by
  unfold ofRanges at h
  cases hchecked : checked ranges with
  | error found =>
      rw [hchecked] at h
      cases h
  | ok named =>
      rw [hchecked] at h
      cases h
      rw [contains_ofStored (canonical_normalize _), contains_normalize,
        (not_tooWide_of_checked hchecked).2, contains_nonempty, Bool.bne_false]

/-! ## The algebra -/

/-- The operations on sets, whatever their bitmaps and whether or not they are
complemented, are the Boolean operations on membership. -/
theorem operations_of_membership (a b : AddressSet) :
    (∀ x,
      (a.union b).contains x = (a.contains x || b.contains x) ∧
      (a.intersection b).contains x = (a.contains x && b.contains x) ∧
      (a.difference b).contains x = (a.contains x && !b.contains x) ∧
      (a.symmetricDifference b).contains x = (a.contains x ^^ b.contains x) ∧
      a.complement.contains x = !a.contains x) ∧
    (∀ address x, (a.insert address).contains x =
      if x = address then true else a.contains x) ∧
    (∀ ranges, Changed a ranges true (a.insertRanges ranges)) ∧
    (∀ range, Changed a [range] false (a.removeRange range)) ∧
    ∀ ranges,
      ((∃ error, ofRanges ranges = .error error) ↔ TooWide ranges) ∧
      (∀ error, ofRanges ranges = .error error →
        error.kind = .invalidArgument) ∧
      ∀ set, ofRanges ranges = .ok set →
        ∀ x, set.contains x = RangeList.contains ranges x := by
  refine ⟨?_, contains_insert a, changed_insertRanges a,
    changed_removeRange a, ?_⟩
  · intro x
    exact ⟨contains_union a b x, contains_intersection a b x,
      contains_difference a b x, contains_symmetricDifference a b x,
      contains_complement a x⟩
  · intro ranges
    exact ⟨ofRanges_eq_error_iff ranges, fun _ => kind_of_ofRanges,
      fun _ => contains_ofRanges⟩

end AddressSet
end CudaProfile
