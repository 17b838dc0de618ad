import CudaProfile.AddressSet.Bitmap
/-!
# Partitioning ranges into bitmaps

A list of ranges becomes one bitmap unless its widest gap costs more bits than
a second bitmap, or the list spans more addresses than a bitmap may cover. Then
it is split at its widest gap, and each part is partitioned in turn.
-/

namespace CudaProfile
namespace Partition

/-- The bits that starting a new bitmap costs when it travels: two words for
its range and at least one byte of data. -/
def threshold : UInt64 :=
  136

/-- A list of ranges cut in two, and the number of addresses between the two
parts. -/
structure Split where
  left : List AddressRange
  gap : UInt64
  right : List AddressRange

/-- The list cut at its widest gap, at the first of equally wide ones. -/
def widestGap? : List AddressRange → Option Split
  | [] => none
  | [_] => none
  | a :: b :: rest =>
      let gap := b.lo - a.hi - 1
      match widestGap? (b :: rest) with
      | none => some ⟨[a], gap, b :: rest⟩
      | some later =>
          if gap ≥ later.gap then some ⟨[a], gap, b :: rest⟩
          else some ⟨a :: later.left, later.gap, later.right⟩

/-- One more than the number of times the width limit fits below the distance
of the bounds of a range, summed over a list. -/
def pieces : List AddressRange → Nat
  | [] => 0
  | r :: rest =>
      (r.hi - r.lo).toNat / maxBitmapWidth.toNat + 1 + pieces rest

theorem pieces_append (a b : List AddressRange) :
    pieces (a ++ b) = pieces a + pieces b := by
  induction a with
  | nil =>
      simp [pieces]
  | cons r rest ih =>
      simp only [List.cons_append, pieces, ih]
      omega

theorem pieces_pos {ranges : List AddressRange} (h : ranges ≠ []) :
    0 < pieces ranges := by
  cases ranges with
  | nil =>
      exact absurd rfl h
  | cons r rest =>
      exact Nat.add_pos_left (Nat.succ_pos _) _

theorem pieces_single (r : AddressRange) :
    pieces [r] = (r.hi - r.lo).toNat / maxBitmapWidth.toNat + 1 :=
  rfl

theorem widestGap?_append {ranges : List AddressRange} {split : Split}
    (h : widestGap? ranges = some split) :
    split.left ++ split.right = ranges ∧ split.left ≠ [] ∧
      split.right ≠ [] := by
  induction ranges generalizing split with
  | nil =>
      simp [widestGap?] at h
  | cons a rest ih =>
      cases rest with
      | nil =>
          simp [widestGap?] at h
      | cons b rest =>
          unfold widestGap? at h
          split at h
          · cases h
            simp
          · next later hlater =>
            have := ih hlater
            simp only at h
            split at h
            · cases h
              simp
            · cases h
              refine ⟨?_, ?_, this.2.2⟩
              · simpa using this.1
              · simp

def cutAtLimit (range : AddressRange) : AddressRange × AddressRange :=
  (⟨range.lo, range.lo + maxBitmapWidth - 1⟩,
    ⟨range.lo + maxBitmapWidth, range.hi⟩)

def oversized (lo hi : Address) : Bool :=
  hi - lo ≥ maxBitmapWidth

theorem pieces_cutAtLimit {range : AddressRange}
    (h : oversized range.lo range.hi = true) :
    pieces [(cutAtLimit range).1] < pieces [range] ∧
      pieces [(cutAtLimit range).2] < pieces [range] := by
  have hle : maxBitmapWidth ≤ range.hi - range.lo := by
    simpa [oversized] using h
  have hnat := UInt64.le_iff_toNat_le.1 hle
  have hmax : maxBitmapWidth.toNat = 4294967296 := by decide
  have hfirst : range.lo + maxBitmapWidth - 1 - range.lo =
      maxBitmapWidth - 1 := by
    grind
  have hrest : range.hi - (range.lo + maxBitmapWidth) =
      range.hi - range.lo - maxBitmapWidth := by
    grind
  have hsub : (range.hi - range.lo - maxBitmapWidth).toNat =
      (range.hi - range.lo).toNat - maxBitmapWidth.toNat :=
    UInt64.toNat_sub_of_le _ _ hle
  have hone : (maxBitmapWidth - 1).toNat = 4294967295 := by decide
  constructor
  · simp only [pieces_single, cutAtLimit, hfirst, hone]
    rw [hmax] at hnat ⊢
    omega
  · simp only [pieces_single, cutAtLimit, hrest, hsub]
    rw [hmax] at hnat ⊢
    omega

def cover (ranges : List AddressRange) (lo hi : Address) : Bitmap :=
  .ofRanges ⟨lo, hi⟩ ranges

/-- The bitmaps of a canonical list of ranges, ascending. -/
def partition (ranges : List AddressRange) : List Bitmap :=
  match ranges with
  | [] => []
  | first :: others =>
      let lo := first.lo
      let hi := ((first :: others).getLast (by simp)).hi
      match hsplit : widestGap? (first :: others) with
      | some split =>
          if split.gap > threshold || oversized lo hi then
            partition split.left ++ partition split.right
          else [cover (first :: others) lo hi]
      | none =>
          if h : oversized first.lo first.hi then
            partition [(cutAtLimit first).1] ++
              partition [(cutAtLimit first).2]
          else [cover (first :: others) lo hi]
termination_by pieces ranges
decreasing_by
  · have h := widestGap?_append hsplit
    have hright := pieces_pos h.2.2
    rw [← h.1, pieces_append]
    omega
  · have h := widestGap?_append hsplit
    have hleft := pieces_pos h.2.1
    rw [← h.1, pieces_append]
    omega
  · refine Nat.lt_of_lt_of_le (pieces_cutAtLimit h).1 ?_
    simp [pieces]
  · refine Nat.lt_of_lt_of_le (pieces_cutAtLimit h).2 ?_
    simp [pieces]

end Partition
end CudaProfile
