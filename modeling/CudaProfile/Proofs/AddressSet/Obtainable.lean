import CudaProfile.Proofs.AddressSet.Bitmap
import CudaProfile.Proofs.Lists
/-!
# The sets that can be obtained

The bitmaps of a set are never over an empty range, nor over more addresses
than fit into a bitmap, in whichever way the set was made: partitioning cuts a
list until its parts fit, and records that do not fit are refused. Records of
such bitmaps are read back as the same bitmaps, in the same order.
-/

namespace CudaProfile

open RangeList

namespace Partition

theorem legal_cover {lo hi : Address} (hle : lo ≤ hi)
    (hfits : oversized lo hi = false) (ranges : List AddressRange) :
    (cover ranges lo hi).Legal := by
  have hfull : (⟨lo, hi⟩ : Interval).isEmpty = false :=
    Interval.isEmpty_eq_false_iff.mpr hle
  refine ⟨hfull, ?_⟩
  change Interval.size ⟨lo, hi⟩ ≤ _
  rw [Interval.size_eq hfull]
  change (hi - lo).toNat + 1 ≤ _
  have hless : hi - lo < maxBitmapWidth := by
    simpa [oversized] using hfits
  have hmax : maxBitmapWidth.toNat = 4294967296 := rfl
  rw [UInt64.lt_iff_toNat_lt] at hless
  omega

theorem lo_le_getLast {first : AddressRange} {others : List AddressRange}
    (h : Canonical (first :: others)) :
    first.lo ≤ ((first :: others).getLast (by simp)).hi :=
  UInt64.le_trans ((canonical_iff.mp h).1 first List.mem_cons_self)
    (hi_le_getLast h (by simp) List.mem_cons_self)

theorem legal_of_mem_partition {ranges : List AddressRange}
    (h : Canonical ranges) : ∀ b ∈ partition ranges, b.Legal := by
  fun_induction partition ranges with
  | case1 =>
      intro b hb
      cases hb
  | case2 first others lo hi split hsplit hcut ihleft ihright =>
      rw [← (widestGap?_append hsplit).1] at h
      intro b hb
      rcases List.mem_append.mp hb with hleft | hright
      · exact ihleft h.left b hleft
      · exact ihright h.right b hright
  | case3 first others lo hi split hsplit hkeep =>
      rw [Bool.not_eq_true, Bool.or_eq_false_iff] at hkeep
      intro b hb
      rw [List.mem_singleton.mp hb]
      exact legal_cover (lo_le_getLast h) hkeep.2 _
  | case4 first others hnone hover ihleft ihright =>
      have hle := (canonical_iff.mp h).1 first List.mem_cons_self
      rcases nonempty_cutAtLimit hover hle with ⟨hfirst, hrest⟩
      intro b hb
      rcases List.mem_append.mp hb with hleft | hright
      · exact ihleft (canonical_singleton hfirst) b hleft
      · exact ihright (canonical_singleton hrest) b hright
  | case5 first others lo hi hnone hfits =>
      have hothers := widestGap?_eq_none hnone
      subst hothers
      intro b hb
      rw [List.mem_singleton.mp hb]
      exact legal_cover (lo_le_getLast h) (Bool.eq_false_iff.mpr hfits) _

end Partition

namespace AddressSet

/-- The sets that the operations on sets yield, from nothing or from records. -/
inductive Obtainable : AddressSet → Prop where
  | empty : Obtainable ∅
  | ofRanges {ranges s} : ofRanges ranges = .ok s → Obtainable s
  | ofAddresses (addresses) : Obtainable (ofAddresses addresses)
  | ofRecords {records s} : ofRecords records = .ok s → Obtainable s
  | insert {s} (address) : Obtainable s → Obtainable (s.insert address)
  | insertRanges {s} (ranges) :
      Obtainable s → Obtainable (s.insertRanges ranges).state
  | removeRange {s} (range) :
      Obtainable s → Obtainable (s.removeRange range).state
  | complement {s} : Obtainable s → Obtainable s.complement
  | union {s t} : Obtainable s → Obtainable t → Obtainable (s.union t)
  | intersection {s t} :
      Obtainable s → Obtainable t → Obtainable (s.intersection t)
  | difference {s t} :
      Obtainable s → Obtainable t → Obtainable (s.difference t)
  | symmetricDifference {s t} :
      Obtainable s → Obtainable t → Obtainable (s.symmetricDifference t)

def Legal (s : AddressSet) : Prop :=
  ∀ b ∈ s.bitmaps, b.Legal

/-! ## Partitioned sets -/

/-- The bitmaps of a set are those that its addresses are partitioned into. -/
def Partitioned (s : AddressSet) : Prop :=
  s.bitmaps = Partition.partition s.storedRanges

theorem storedRanges_ofStored {ranges : List AddressRange}
    (h : Canonical ranges) (complemented : Bool) :
    (ofStored ranges complemented).storedRanges = ranges := by
  apply eq_of_contains_eq (canonical_storedRanges _) h
  intro x
  rw [contains_storedRanges]
  exact Partition.member_partition h x

theorem partitioned_ofStored {ranges : List AddressRange}
    (h : Canonical ranges) (complemented : Bool) :
    (ofStored ranges complemented).Partitioned := by
  unfold Partitioned
  rw [storedRanges_ofStored h]
  rfl

theorem Partitioned.legal {s : AddressSet} (h : s.Partitioned) : s.Legal := by
  unfold Legal
  rw [h]
  exact Partition.legal_of_mem_partition (canonical_storedRanges s)

theorem partitioned_add (s : AddressSet) (ranges : List AddressRange) :
    (s.add ranges).Partitioned := by
  unfold add
  simp only
  split
  · exact partitioned_ofStored (canonical_difference _ _) _
  · exact partitioned_ofStored (canonical_union _ _) _

theorem partitioned_remove (s : AddressSet) (ranges : List AddressRange) :
    (s.remove ranges).Partitioned := by
  unfold remove
  simp only
  split
  · exact partitioned_ofStored (canonical_union _ _) _
  · exact partitioned_ofStored (canonical_difference _ _) _

theorem partitioned_intersection (s t : AddressSet) :
    (s.intersection t).Partitioned := by
  have hs := canonical_storedRanges s
  have ht := canonical_storedRanges t
  unfold intersection
  simp only
  split
  · exact partitioned_ofStored (canonical_intersection hs ht) _
  · exact partitioned_ofStored (canonical_difference _ _) _
  · exact partitioned_ofStored (canonical_difference _ _) _
  · exact partitioned_ofStored (canonical_union _ _) _

theorem partitioned_union (s t : AddressSet) : (s.union t).Partitioned := by
  have hs := canonical_storedRanges s
  have ht := canonical_storedRanges t
  unfold union
  simp only
  split
  · exact partitioned_ofStored (canonical_union _ _) _
  · exact partitioned_ofStored (canonical_difference _ _) _
  · exact partitioned_ofStored (canonical_difference _ _) _
  · exact partitioned_ofStored (canonical_intersection hs ht) _

theorem partitioned_symmetricDifference (s t : AddressSet) :
    (s.symmetricDifference t).Partitioned :=
  partitioned_ofStored (canonical_union _ _) _

theorem partitioned_ofAddresses (addresses : List Address) :
    (ofAddresses addresses).Partitioned :=
  partitioned_ofStored (canonical_normalize _) _

theorem partitioned_ofRanges {ranges : List AddressRange} {s : AddressSet}
    (h : ofRanges ranges = .ok s) : s.Partitioned := by
  unfold ofRanges at h
  cases hchecked : checked ranges with
  | error error =>
      rw [hchecked] at h
      cases h
  | ok named =>
      rw [hchecked] at h
      cases h
      exact partitioned_ofStored (canonical_normalize _) _

/-! ## Records -/

theorem ofRecords_map_toRecord {s : AddressSet} (h : s.Legal)
    (hstored : s.complemented = false) :
    ofRecords (s.bitmaps.map Bitmap.toRecord) = .ok s := by
  unfold ofRecords
  rw [mapM_map_eq_ok fun b hb => Bitmap.ofRecord_toRecord (h b hb), ← hstored]
  rfl

theorem legal_of_mapM {records : List BitmapRecord} {bitmaps : List Bitmap}
    (h : records.mapM Bitmap.ofRecord = .ok bitmaps) :
    ∀ b ∈ bitmaps, b.Legal := by
  intro b hb
  rcases exists_of_mapM_eq_ok h hb with ⟨record, _, hread⟩
  exact Bitmap.legal_ofRecord hread

theorem legal_ofRecords {records : List BitmapRecord} {s : AddressSet}
    (h : ofRecords records = .ok s) : s.Legal := by
  unfold ofRecords at h
  cases hbitmaps : records.mapM Bitmap.ofRecord with
  | error fault =>
      rw [hbitmaps] at h
      cases h
  | ok bitmaps =>
      rw [hbitmaps] at h
      cases h
      exact legal_of_mapM hbitmaps

/-! ## Obtainable sets are the legal ones -/

theorem Obtainable.legal {s : AddressSet} (h : Obtainable s) : s.Legal := by
  induction h with
  | empty =>
      intro b hb
      cases hb
  | ofRanges hmade =>
      exact (partitioned_ofRanges hmade).legal
  | ofAddresses addresses =>
      exact (partitioned_ofAddresses addresses).legal
  | ofRecords hread =>
      exact legal_ofRecords hread
  | insert address _ _ =>
      exact (partitioned_add _ _).legal
  | @insertRanges s ranges _ ih =>
      unfold AddressSet.insertRanges
      split
      · exact ih
      · exact (partitioned_add _ _).legal
  | @removeRange s range _ ih =>
      unfold AddressSet.removeRange
      split
      · exact ih
      · exact (partitioned_remove _ _).legal
  | complement _ ih =>
      exact ih
  | union _ _ _ _ =>
      exact (partitioned_union _ _).legal
  | intersection _ _ _ _ =>
      exact (partitioned_intersection _ _).legal
  | difference _ _ _ _ =>
      exact (partitioned_intersection _ _).legal
  | symmetricDifference _ _ _ _ =>
      exact (partitioned_symmetricDifference _ _).legal

/-- A legal set is read from its records, or is the complement of one that
is. -/
theorem Legal.obtainable {s : AddressSet} (h : s.Legal) : Obtainable s := by
  cases hstored : s.complemented with
  | false =>
      exact .ofRecords (ofRecords_map_toRecord h hstored)
  | true =>
      have hother : s.complement.complemented = false := by
        unfold AddressSet.complement
        simp [hstored]
      have hread := Obtainable.ofRecords (ofRecords_map_toRecord
        (s := s.complement) h hother)
      have htwice : s.complement.complement = s := by
        cases s
        simp [AddressSet.complement]
      rw [← htwice]
      exact .complement hread

theorem obtainable_iff_legal {s : AddressSet} : Obtainable s ↔ s.Legal :=
  ⟨Obtainable.legal, Legal.obtainable⟩

end AddressSet

namespace Bitmap

/-! ## The bitmaps that can be obtained -/

/-- The bitmaps that are made over a range or from a record, those that sets
keep, and those with bits set or cleared one after the other. -/
inductive Obtainable : Bitmap → Prop where
  | new {range b} : Bitmap.new range = .ok b → Obtainable b
  | ofRecord {record b} : Bitmap.ofRecord record = .ok b → Obtainable b
  | stored {s : AddressSet} {b} : s.Obtainable → b ∈ s.bitmaps → Obtainable b
  | set {b c address value} :
      Obtainable b → b.set address value = .ok c → Obtainable c

theorem legal_new {range : AddressRange} {b : Bitmap}
    (h : Bitmap.new range = .ok b) : b.Legal := by
  unfold Bitmap.new at h
  split at h
  · cases h
  · next hfull =>
    split at h
    · cases h
    · next hfits =>
      cases h
      have hfull := Bool.eq_false_iff.mpr hfull
      refine ⟨hfull, Nat.not_lt.mp ?_⟩
      intro hwide
      exact hfits ((Interval.limit_lt_width_iff hfull).mpr hwide)

theorem range_set {b c : Bitmap} {address : Address} {value : Bool}
    (h : b.set address value = .ok c) : c.range = b.range := by
  unfold Bitmap.set at h
  simp only at h
  split at h
  · cases h
    rfl
  · cases h

theorem Obtainable.legal {b : Bitmap} (h : b.Obtainable) : b.Legal := by
  induction h with
  | new hmade =>
      exact legal_new hmade
  | ofRecord hread =>
      exact legal_ofRecord hread
  | stored hset hb =>
      exact hset.legal _ hb
  | set _ hset ih =>
      unfold Legal
      rw [range_set hset]
      exact ih

end Bitmap
end CudaProfile
