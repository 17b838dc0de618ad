import CudaProfile.Proofs.AddressSet.Bitmap
import CudaProfile.Proofs.Lists
/-!
# Equal sets hold the same addresses

The ranges of a set are the one canonical list of its addresses, whatever
bitmaps it keeps and whether they are of what it holds or of what it lacks. So
to compare sets by their ranges is to compare them address by address.
-/

namespace CudaProfile

open RangeList

namespace AddressSet

/-! ## The bits of a set -/

theorem contains_eq_holds (s : AddressSet) (x : Address) :
    s.contains x =
      ((s.bitmaps.any fun b => Bitmap.holds b.toRecord x) !=
        s.complemented) := by
  unfold contains stores
  simp only [Bitmap.holds_toRecord]

theorem any_member_of_mapM {records : List BitmapRecord}
    {bitmaps : List Bitmap}
    (h : records.mapM Bitmap.ofRecord = .ok bitmaps) (x : Address) :
    (bitmaps.any fun b => b.member x) =
      records.any fun record => Bitmap.holds record x := by
  have hall := forall₂_of_mapM_eq_ok h
  clear h
  induction hall with
  | nil =>
      rfl
  | cons hread _ ih =>
      rw [List.any_cons, List.any_cons, ih, Bitmap.member_ofRecord hread]

theorem contains_ofRecords {records : List BitmapRecord} {s : AddressSet}
    (h : ofRecords records = .ok s) (x : Address) :
    s.contains x = records.any fun record => Bitmap.holds record x := by
  unfold ofRecords at h
  cases hbitmaps : records.mapM Bitmap.ofRecord with
  | error fault =>
      rw [hbitmaps] at h
      cases h
  | ok bitmaps =>
      rw [hbitmaps] at h
      cases h
      rw [← any_member_of_mapM hbitmaps]
      exact Bool.bne_false _

/-! ## The ranges of a set -/

theorem canonical_ranges (s : AddressSet) : Canonical s.ranges := by
  unfold ranges
  split
  · exact canonical_difference _ _
  · exact canonical_storedRanges s

theorem contains_ranges (s : AddressSet) (x : Address) :
    RangeList.contains s.ranges x = s.contains x := by
  rw [contains_eq]
  unfold ranges
  cases s.complemented with
  | false =>
      exact (Bool.bne_false _).symm
  | true =>
      rw [if_pos rfl, RangeList.contains_difference (canonical_storedRanges s),
        contains_cons, Interval.full_contains, Bool.true_or, Bool.true_and]
      exact (Bool.bne_true _).symm

theorem same_iff (s t : AddressSet) :
    s.same t = true ↔ ∀ x, s.contains x = t.contains x := by
  unfold same
  rw [decide_eq_true_iff]
  constructor
  · intro hsame x
    rw [← contains_ranges, hsame, contains_ranges]
  · intro h
    apply eq_of_contains_eq (canonical_ranges s) (canonical_ranges t)
    intro x
    rw [contains_ranges, contains_ranges, h]

theorem same_self (s : AddressSet) : s.same s = true :=
  decide_eq_true rfl

theorem same_trans {s t u : AddressSet} (h : s.same t = true)
    (h' : t.same u = true) : s.same u = true :=
  decide_eq_true ((of_decide_eq_true h).trans (of_decide_eq_true h'))

theorem same_complement (s t : AddressSet) :
    s.complement.same t.complement = s.same t := by
  rw [Bool.eq_iff_iff, same_iff, same_iff]
  apply forall_congr'
  intro x
  rw [contains_complement, contains_complement, Bool.not_inj_iff]

theorem isEmpty_iff (s : AddressSet) :
    s.isEmpty = true ↔ ∀ x, s.contains x = false := by
  unfold isEmpty
  rw [List.isEmpty_iff]
  constructor
  · intro hnone x
    rw [← contains_ranges, hnone, contains_nil]
  · intro h
    apply eq_of_contains_eq (canonical_ranges s) (b := []) trivial
    intro x
    rw [contains_ranges, h, contains_nil]

/-! ## Equality by addresses -/

/-- The ranges of a set are not empty, ascend with an address between
neighbours, and hold the addresses that the bits of its bitmaps say; hence two
sets are the same exactly if they hold the same addresses. -/
theorem ranges_determine_the_set (s t : AddressSet) :
    ((∀ r ∈ s.ranges, r.isEmpty = false) ∧
      (s.ranges.Pairwise fun r r' => r.hi.toNat + 1 < r'.lo.toNat) ∧
      ∀ x, (∃ r ∈ s.ranges, r.contains x = true) ↔ s.contains x = true) ∧
    (∀ x, s.contains x =
      ((s.bitmaps.any fun b => Bitmap.holds b.toRecord x) !=
        s.complemented)) ∧
    (∀ records, ofRecords records = .ok s → ∀ x,
      s.contains x = records.any fun record => Bitmap.holds record x) ∧
    (s.same t = true ↔ ∀ x, s.contains x = t.contains x) ∧
    (s.same t = true → s.complement.same t.complement = true) ∧
    (s.isEmpty = true ↔ ∀ x, s.contains x = false) := by
  rcases canonical_iff.mp (canonical_ranges s) with ⟨hfull, hfar⟩
  refine ⟨⟨?_, hfar, ?_⟩, contains_eq_holds s,
    fun _ => contains_ofRecords, same_iff s t, ?_, isEmpty_iff s⟩
  · intro r hr
    exact Interval.isEmpty_eq_false_iff.mpr (hfull r hr)
  · intro x
    rw [← contains_ranges, RangeList.contains, List.any_eq_true]
  · intro hsame
    rw [same_complement, hsame]

/-- Bitmaps in descending order: one up to the last address, two that overlap,
and one over clear bits only. -/
example :
    let received := ofRecords [⟨⟨0xFFFFFFFFFFFFFFFC, 0⟩, [0xFD]⟩,
      ⟨⟨8, 16⟩, [0x0F]⟩, ⟨⟨4, 12⟩, [0xF0]⟩, ⟨⟨100, 101⟩, [0]⟩]
    received.map ranges = .ok [⟨8, 11⟩,
      ⟨0xFFFFFFFFFFFFFFFC, 0xFFFFFFFFFFFFFFFC⟩,
      ⟨0xFFFFFFFFFFFFFFFE, 0xFFFFFFFFFFFFFFFF⟩] := by
  cbv

end AddressSet
end CudaProfile
