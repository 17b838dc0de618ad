import CudaProfile.Proofs.AddressSet.RangeList
/-!
# Canonical lists among all others

What makes a list canonical can be said of its ranges one by one and of the
order in which they stand, without a count of the addresses between them: none
is empty, they ascend, no two have an address in common, and none begins where
an earlier one has just ended. There is one such list for any addresses, and it
is the one that normalizing yields.
-/

namespace CudaProfile
namespace RangeList

/-- No two ranges could be written as one, and they stand in order. -/
structure Orderly (ranges : List AddressRange) : Prop where
  nonempty : ∀ r ∈ ranges, r.isEmpty = false
  ascending : ranges.Pairwise fun r s => r.lo < s.lo
  disjoint : ranges.Pairwise fun r s =>
    ∀ x, r.contains x = true → s.contains x = false
  apart : ranges.Pairwise fun r s => r.hi.toNat + 1 ≠ s.lo.toNat

/-- Of two ranges the second begins two addresses or more beyond the end of the
first exactly if it begins later, shares no address with it and does not touch
it. -/
theorem toNat_add_two_le_iff {r s : AddressRange} (hr : r.lo ≤ r.hi)
    (hs : s.lo ≤ s.hi) :
    r.hi.toNat + 2 ≤ s.lo.toNat ↔
      (r.lo < s.lo ∧ ∀ x, r.contains x = true → s.contains x = false) ∧
        r.hi.toNat + 1 ≠ s.lo.toNat := by
  constructor
  · intro hfar
    have hlt := lt_of_toNat_add_two_le hfar
    refine ⟨⟨UInt64.lt_of_le_of_lt hr hlt, ?_⟩, by omega⟩
    intro x hx
    rw [Interval.contains_eq_false_iff]
    intro hin
    have hle := UInt64.le_trans hin.1 (Interval.contains_iff.mp hx).2
    exact UInt64.not_lt.mpr hle hlt
  · intro h
    rcases h with ⟨⟨hlt, hnone⟩, hapart⟩
    -- The first address of the second range is beyond the first range.
    have hbeyond : r.hi < s.lo := by
      apply UInt64.not_le.mp
      intro hle
      have hin := hnone s.lo
        (Interval.contains_iff.mpr ⟨UInt64.le_of_lt hlt, hle⟩)
      exact Interval.contains_eq_false_iff.mp hin ⟨UInt64.le_refl _, hs⟩
    rw [UInt64.lt_iff_toNat_lt] at hbeyond
    omega

theorem canonical_iff_orderly {ranges : List AddressRange} :
    Canonical ranges ↔ Orderly ranges := by
  rw [canonical_iff]
  constructor
  · intro h
    rcases h with ⟨hfull, hfar⟩
    have hparts := hfar.imp_of_mem fun hr hs h =>
      (toNat_add_two_le_iff (hfull _ hr) (hfull _ hs)).mp h
    exact {
      nonempty := fun r hr => Interval.isEmpty_eq_false_iff.mpr (hfull r hr)
      ascending := hparts.imp fun h => h.1.1
      disjoint := hparts.imp fun h => h.1.2
      apart := hparts.imp fun h => h.2 }
  · intro h
    have hfull : ∀ r ∈ ranges, r.lo ≤ r.hi := fun r hr =>
      Interval.isEmpty_eq_false_iff.mp (h.nonempty r hr)
    have hparts := (h.ascending.and h.disjoint).and h.apart
    exact ⟨hfull, hparts.imp_of_mem fun hr hs h =>
      (toNat_add_two_le_iff (hfull _ hr) (hfull _ hs)).mpr h⟩

/-- Normalizing yields the one orderly list with the addresses it is given, and
of orderly lists what they have in common and what one has besides the other
come in orderly lists again. -/
theorem orderly_lists (a b : List AddressRange) :
    (∀ result, (Orderly result ∧ ∀ x, contains result x = contains a x) ↔
      result = normalize a) ∧
    (Orderly a → Orderly b →
      (Orderly (intersection a b) ∧
        ∀ x, contains (intersection a b) x =
          (contains a x && contains b x)) ∧
      (Orderly (difference a b) ∧
        ∀ x, contains (difference a b) x =
          (contains a x && !contains b x))) := by
  refine ⟨?_, ?_⟩
  · intro result
    have hnormal : Orderly (normalize a) :=
      canonical_iff_orderly.mp (canonical_normalize a)
    constructor
    · intro h
      rcases h with ⟨horderly, hsame⟩
      apply eq_of_contains_eq (canonical_iff_orderly.mpr horderly)
        (canonical_normalize a)
      intro x
      rw [hsame, contains_normalize]
    · intro h
      rw [h]
      exact ⟨hnormal, contains_normalize a⟩
  · intro horderly horderly'
    have ha := canonical_iff_orderly.mpr horderly
    have hb := canonical_iff_orderly.mpr horderly'
    exact ⟨⟨canonical_iff_orderly.mp (canonical_intersection ha hb),
        contains_intersection ha hb⟩,
      canonical_iff_orderly.mp (canonical_difference a b),
      contains_difference hb⟩

/-- Two lists that reach the ends of the address space. -/
theorem orderly_lists_at_the_ends :
    Orderly (intersection [⟨0, 5⟩, ⟨8, Interval.maxWord⟩]
      [⟨0, 3⟩, ⟨5, 9⟩, ⟨Interval.maxWord, Interval.maxWord⟩]) ∧
    Orderly (difference [⟨0, 5⟩, ⟨8, Interval.maxWord⟩]
      [⟨0, 3⟩, ⟨5, 9⟩, ⟨Interval.maxWord, Interval.maxWord⟩]) := by
  have h := (orderly_lists [⟨0, 5⟩, ⟨8, Interval.maxWord⟩]
    [⟨0, 3⟩, ⟨5, 9⟩, ⟨Interval.maxWord, Interval.maxWord⟩]).2
    (canonical_iff_orderly.mp (canonical_iff.mpr (by decide)))
    (canonical_iff_orderly.mp (canonical_iff.mpr (by decide)))
  exact ⟨h.1.1, h.2.1⟩

end RangeList
end CudaProfile
