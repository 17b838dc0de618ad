import CudaProfile.Proofs.AddressSet.Equality
import CudaProfile.Proofs.AddressSet.Obtainable
/-!
# Where lists are cut

A list is cut at its widest gap while that is worth a bitmap, and wherever else
it must be because it is too wide. So the bitmaps begin and end with addresses
of the list and have no gap worth another bitmap, and of a list that is not too
wide they are what a scan from left to right finds that cuts at every such gap.
-/

namespace CudaProfile

open RangeList

namespace Partition

/-! ## Gaps -/

def gap (a b : AddressRange) : UInt64 :=
  b.lo - a.hi - 1

theorem toNat_gap {a b : AddressRange} (h : a.hi.toNat + 2 ≤ b.lo.toNat) :
    (gap a b).toNat = b.lo.toNat - a.hi.toNat - 1 := by
  have hone : (1 : UInt64).toNat = 1 := rfl
  have hle : a.hi ≤ b.lo := UInt64.le_of_lt (lt_of_toNat_add_two_le h)
  have hdistance := UInt64.toNat_sub_of_le _ _ hle
  have hpos : 1 ≤ b.lo - a.hi := by
    rw [UInt64.le_iff_toNat_le]
    omega
  unfold gap
  rw [UInt64.toNat_sub_of_le _ _ hpos, hdistance, hone]

/-- A gap of a list that no other gap exceeds, and the two parts beside it. -/
structure Widest (ranges : List AddressRange) (before : List AddressRange)
    (a b : AddressRange) (later : List AddressRange) : Prop where
  ranges_eq : before ++ a :: b :: later = ranges
  gap_le : ranges.IsChain fun r s => gap r s ≤ gap a b

theorem widest_of_widestGap? {ranges : List AddressRange} {split : Split}
    (h : widestGap? ranges = some split) :
    ∃ before a b later, Widest ranges before a b later ∧
      split = ⟨before ++ [a], gap a b, b :: later⟩ := by
  induction ranges generalizing split with
  | nil =>
      cases h
  | cons a rest ih =>
      cases rest with
      | nil =>
          cases h
      | cons b rest =>
          unfold widestGap? at h
          split at h
          · next hnone =>
            cases h
            have hrest := widestGap?_eq_none hnone
            subst hrest
            exact ⟨[], a, b, [], ⟨rfl, by simp⟩, rfl⟩
          · next later hlater =>
            rcases ih hlater with ⟨before, c, d, after, hwidest, rfl⟩
            simp only at h
            split at h
            · next hwider =>
              cases h
              refine ⟨[], a, b, rest, ⟨rfl, ?_⟩, rfl⟩
              rw [List.isChain_cons_cons]
              refine ⟨UInt64.le_refl _, hwidest.gap_le.imp ?_⟩
              intro r s hle
              exact UInt64.le_trans hle hwider
            · next hnarrower =>
              cases h
              refine ⟨a :: before, c, d, after, ⟨?_, ?_⟩, rfl⟩
              · rw [List.cons_append, hwidest.ranges_eq]
              · rw [List.isChain_cons_cons]
                exact ⟨UInt64.le_of_lt (UInt64.not_le.mp hnarrower),
                  hwidest.gap_le⟩

theorem Widest.apart {ranges before later : List AddressRange}
    {a b : AddressRange} (h : Widest ranges before a b later)
    (hranges : Canonical ranges) : a.hi.toNat + 2 ≤ b.lo.toNat := by
  rw [← h.ranges_eq] at hranges
  have hright := hranges.right
  exact (canonical_cons_iff.mp hright).2.1 b List.mem_cons_self

theorem Widest.lt {ranges before later : List AddressRange}
    {a b : AddressRange} (h : Widest ranges before a b later)
    (hranges : Canonical ranges) {x y : Address}
    (hx : contains (before ++ [a]) x = true)
    (hy : contains (b :: later) y = true) :
    x.toNat + (gap a b).toNat < y.toNat := by
  have hgap := toNat_gap (h.apart hranges)
  have hapart := h.apart hranges
  rw [← h.ranges_eq] at hranges
  have hleft : Canonical (before ++ [a]) := by
    apply Canonical.left (b := b :: later)
    rw [List.append_assoc]
    exact hranges
  have hright : Canonical (b :: later) :=
    (canonical_cons_iff.mp hranges.right).2.2
  rcases contains_iff.mp hx with ⟨r, hr, _, hhi⟩
  rcases contains_iff.mp hy with ⟨s, hs, hlo, _⟩
  have hlast := hi_le_getLast hleft (by simp) hr
  rw [List.getLast_append_singleton] at hlast
  have hfirst := lo_le_of_mem (canonical_iff.mp hright) hs
  rw [UInt64.le_iff_toNat_le] at hhi hlo hlast hfirst
  omega

/-! ## Cuts -/

def spanning : List AddressRange → List Bitmap
  | [] => []
  | first :: others =>
      [cover (first :: others) first.lo
        ((first :: others).getLast (List.cons_ne_nil first others)).hi]

def cut? : List AddressRange → Option (List AddressRange × List AddressRange)
  | [] => none
  | first :: others =>
      let wide := oversized first.lo
        ((first :: others).getLast (List.cons_ne_nil first others)).hi
      match widestGap? (first :: others) with
      | some split =>
          if split.gap > threshold || wide then some (split.left, split.right)
          else none
      | none =>
          if wide then some ([(cutAtLimit first).1], [(cutAtLimit first).2])
          else none

theorem partition_eq (ranges : List AddressRange) :
    partition ranges =
      match cut? ranges with
      | some (left, right) => partition left ++ partition right
      | none => spanning ranges := by
  fun_cases partition ranges with
  | case1 =>
      rfl
  | case2 first others lo hi split hsplit hcut =>
      have hcut? : cut? (first :: others) = some (split.left, split.right) := by
        unfold cut?
        simp only [hsplit]
        exact if_pos hcut
      rw [hcut?]
  | case3 first others lo hi split hsplit hkeep =>
      have hcut? : cut? (first :: others) = none := by
        unfold cut?
        simp only [hsplit]
        exact if_neg hkeep
      rw [hcut?]
      rfl
  | case4 first others hnone hover =>
      have hothers := widestGap?_eq_none hnone
      subst hothers
      have hcut? : cut? [first] =
          some ([(cutAtLimit first).1], [(cutAtLimit first).2]) := by
        unfold cut?
        simp only [hnone]
        exact if_pos hover
      rw [hcut?]
  | case5 first others lo hi hnone hfits =>
      have hothers := widestGap?_eq_none hnone
      subst hothers
      have hcut? : cut? [first] = none := by
        unfold cut?
        simp only [hnone]
        exact if_neg hfits
      rw [hcut?]
      rfl

def Narrow (ranges : List AddressRange) : Prop :=
  ∀ x y, contains ranges x = true → contains ranges y = true →
    y.toNat < x.toNat + 2 ^ 32

theorem contains_last {first : AddressRange} {others : List AddressRange}
    (h : Canonical (first :: others)) :
    contains (first :: others) ((first :: others).getLast (by simp)).hi =
      true := by
  have hmem := List.getLast_mem (List.cons_ne_nil first others)
  have hlast := (canonical_iff.mp h).1 _ hmem
  exact contains_iff.mpr ⟨_, hmem, hlast, UInt64.le_refl _⟩

theorem not_narrow_of_oversized {first : AddressRange}
    {others : List AddressRange} (h : Canonical (first :: others))
    (hwide : oversized first.lo
      ((first :: others).getLast (by simp)).hi = true) :
    ¬Narrow (first :: others) := by
  intro hnarrow
  have hfirst := (canonical_iff.mp h).1 first List.mem_cons_self
  have hfar := hnarrow _ _ (contains_lo hfirst others) (contains_last h)
  have hlimit : maxBitmapWidth ≤
      ((first :: others).getLast (by simp)).hi - first.lo := by
    simpa [oversized] using hwide
  have hmax : maxBitmapWidth.toNat = 4294967296 := rfl
  rw [UInt64.le_iff_toNat_le, UInt64.toNat_sub_of_le _ _ (lo_le_getLast h)]
    at hlimit
  omega

theorem cut?_eq_none {first : AddressRange} {others : List AddressRange}
    (h : cut? (first :: others) = none) :
    ((first :: others).IsChain fun a b => gap a b ≤ threshold) ∧
      oversized first.lo ((first :: others).getLast (by simp)).hi = false := by
  unfold cut? at h
  simp only at h
  split at h
  · next split hsplit =>
    split at h
    · cases h
    · next hkeep =>
      rcases widest_of_widestGap? hsplit with
        ⟨before, a, b, later, hwidest, rfl⟩
      rw [Bool.not_eq_true, Bool.or_eq_false_iff, decide_eq_false_iff_not]
        at hkeep
      refine ⟨hwidest.gap_le.imp ?_, hkeep.2⟩
      intro r s hle
      exact UInt64.le_trans hle (UInt64.not_lt.mp hkeep.1)
  · next hnone =>
    split at h
    · cases h
    · next hfits =>
      have hothers := widestGap?_eq_none hnone
      subst hothers
      exact ⟨List.isChain_singleton _, Bool.eq_false_iff.mpr hfits⟩

/-- A list is cut at a widest gap that is worth it or lies in a list that is
too wide, or else at the width limit of a single range. -/
theorem cut?_eq_some {ranges left right : List AddressRange}
    (hranges : Canonical ranges) (h : cut? ranges = some (left, right)) :
    (∃ before a b later, Widest ranges before a b later ∧
      left = before ++ [a] ∧ right = b :: later ∧
        (threshold < gap a b ∨ ¬Narrow ranges)) ∨
    ∃ r, ranges = [r] ∧ oversized r.lo r.hi = true ∧
      left = [(cutAtLimit r).1] ∧ right = [(cutAtLimit r).2] := by
  cases ranges with
  | nil =>
      cases h
  | cons first others =>
      unfold cut? at h
      simp only at h
      split at h
      · next split hsplit =>
        split at h
        · next hcut =>
          rcases widest_of_widestGap? hsplit with
            ⟨before, a, b, later, hwidest, rfl⟩
          cases h
          refine Or.inl ⟨before, a, b, later, hwidest, rfl, rfl, ?_⟩
          rw [Bool.or_eq_true, decide_eq_true_eq] at hcut
          exact hcut.imp_right (not_narrow_of_oversized hranges)
        · cases h
      · next hnone =>
        have hothers := widestGap?_eq_none hnone
        subst hothers
        split at h
        · next hover =>
          cases h
          exact Or.inr ⟨first, rfl, hover, rfl, rfl⟩
        · cases h

/-- The two parts of a canonical list: they are canonical, one after the other,
have the addresses of the list, and are not too much work. -/
structure Cut (ranges left right : List AddressRange) : Prop where
  canonical_left : Canonical left
  canonical_right : Canonical right
  lt : ∀ x y, contains left x = true → contains right y = true → x < y
  contains_eq : ∀ x, contains ranges x = (contains left x || contains right x)
  pieces_left : 0 < pieces left
  pieces_right : 0 < pieces right
  pieces_le : pieces left + pieces right ≤ pieces ranges

theorem Widest.cut {ranges before later : List AddressRange}
    {a b : AddressRange} (h : Widest ranges before a b later)
    (hranges : Canonical ranges) : Cut ranges (before ++ [a]) (b :: later) := by
  have happend : before ++ [a] ++ b :: later = ranges := by
    rw [List.append_assoc]
    exact h.ranges_eq
  have hparts := hranges
  rw [← happend] at hparts
  constructor
  · exact hparts.left
  · exact hparts.right
  · intro x y hx hy
    have hlt := h.lt hranges hx hy
    rw [UInt64.lt_iff_toNat_lt]
    omega
  · intro x
    rw [← happend, contains_append]
  · exact pieces_pos (by simp)
  · exact pieces_pos (by simp)
  · rw [← pieces_append, happend]

theorem pieces_firstPart (r : AddressRange) :
    pieces [(cutAtLimit r).1] = 1 := by
  have hwidth : r.lo + maxBitmapWidth - 1 - r.lo = maxBitmapWidth - 1 := by
    grind
  have hmax : maxBitmapWidth.toNat = 4294967296 := rfl
  have hlast : (maxBitmapWidth - 1).toNat = 4294967295 := by
    decide
  simp only [pieces_single, cutAtLimit, hwidth, hlast]
  rw [hmax]

theorem cut_atLimit {r : AddressRange} (hle : r.lo ≤ r.hi)
    (hover : oversized r.lo r.hi = true) :
    Cut [r] [(cutAtLimit r).1] [(cutAtLimit r).2] := by
  rcases nonempty_cutAtLimit hover hle with ⟨hfirst, hrest⟩
  rcases toNat_limit hover hle with ⟨hlimit, _⟩
  have hpred := toNat_limit_sub_one hlimit
  have hmax : maxBitmapWidth.toNat = 4294967296 := rfl
  constructor
  · exact canonical_singleton hfirst
  · exact canonical_singleton hrest
  · intro x y hx hy
    simp only [contains_cons, contains_nil, Bool.or_false, cutAtLimit,
      Interval.contains_iff, UInt64.le_iff_toNat_le] at hx hy
    rw [UInt64.lt_iff_toNat_lt]
    omega
  · intro x
    simp only [contains_cons, contains_nil, Bool.or_false]
    exact (contains_cutAtLimit hover hle x).symm
  · exact pieces_pos (by simp)
  · exact pieces_pos (by simp)
  · have hless := (pieces_cutAtLimit hover).2
    rw [pieces_firstPart]
    omega

theorem cut_of_cut? {ranges left right : List AddressRange}
    (hranges : Canonical ranges) (h : cut? ranges = some (left, right)) :
    Cut ranges left right := by
  rcases cut?_eq_some hranges h with
    ⟨before, a, b, later, hwidest, rfl, rfl, _⟩ | ⟨r, rfl, hover, rfl, rfl⟩
  · exact hwidest.cut hranges
  · exact cut_atLimit ((canonical_iff.mp hranges).1 r List.mem_cons_self) hover

/-- What holds of lists that are not cut, and of a list if it holds of its two
parts, holds of every canonical list. -/
theorem partition_induction
    {motive : List AddressRange → List Bitmap → Prop}
    (hwhole : ∀ ranges, Canonical ranges → cut? ranges = none →
      motive ranges (spanning ranges))
    (hcut : ∀ ranges left right, Canonical ranges →
      cut? ranges = some (left, right) → motive left (partition left) →
        motive right (partition right) →
          motive ranges (partition left ++ partition right))
    {ranges : List AddressRange} (h : Canonical ranges) :
    motive ranges (partition ranges) := by
  rw [partition_eq]
  cases hparts : cut? ranges with
  | none =>
      exact hwhole ranges h hparts
  | some parts =>
      rcases parts with ⟨left, right⟩
      have hcuts := cut_of_cut? h hparts
      have hleft := hcuts.pieces_left
      have hright := hcuts.pieces_right
      have hle := hcuts.pieces_le
      exact hcut ranges left right h hparts
        (partition_induction hwhole hcut hcuts.canonical_left)
        (partition_induction hwhole hcut hcuts.canonical_right)
termination_by pieces ranges
decreasing_by
  · omega
  · omega

/-! ## The bitmaps of a list -/

/-- A bitmap that the policy allows: not over too many addresses, from an
address in it to another one, and without clear bits in between that are worth
another bitmap. -/
structure Tight (b : Bitmap) : Prop where
  legal : b.Legal
  begins : b.member b.range.lo = true
  ends : b.member b.range.hi = true
  clear : ∀ r : AddressRange, r.isEmpty = false →
    b.range.containsInterval r = true →
      (∀ x, r.contains x = true → b.member x = false) →
        r.size ≤ threshold.toNat

theorem size_le_of_clear {limit : UInt64} {first : AddressRange}
    {others : List AddressRange} (h : Canonical (first :: others))
    (hgaps : (first :: others).IsChain fun a b => gap a b ≤ limit)
    {r : AddressRange} (hr : r.lo ≤ r.hi) (hlo : first.lo ≤ r.lo)
    (hhi : r.hi ≤ ((first :: others).getLast (by simp)).hi)
    (hclear : ∀ x, r.lo ≤ x → x ≤ r.hi → contains (first :: others) x = false) :
    r.size ≤ limit.toNat := by
  have hafter : first.hi < r.lo := by
    rw [← UInt64.not_le]
    intro hin
    have hnone := hclear r.lo (UInt64.le_refl _) hr
    rw [contains_cons, Interval.contains_iff.mpr ⟨hlo, hin⟩] at hnone
    cases hnone
  induction others generalizing first with
  | nil =>
      have hbefore := UInt64.le_trans hr hhi
      exact absurd hafter (UInt64.not_lt.mpr hbefore)
  | cons second rest ih =>
      rcases canonical_cons_iff.mp h with ⟨_, hfar, hrest⟩
      have hsecond := (canonical_cons_iff.mp hrest).1
      rcases List.isChain_cons_cons.mp hgaps with ⟨hgap, hgaps⟩
      by_cases hle : second.lo ≤ r.lo
      · have hclear' : ∀ x, r.lo ≤ x → x ≤ r.hi →
            contains (second :: rest) x = false := by
          intro x hx hx'
          have hnone := hclear x hx hx'
          rw [contains_cons, Bool.or_eq_false_iff] at hnone
          exact hnone.2
        have hafter' : second.hi < r.lo := by
          rw [← UInt64.not_le]
          intro hin
          have hnone := hclear' r.lo (UInt64.le_refl _) hr
          rw [contains_cons, Interval.contains_iff.mpr ⟨hle, hin⟩] at hnone
          cases hnone
        exact ih hrest hgaps hle hhi hclear' hafter'
      · have hbefore : r.hi < second.lo := by
          rw [← UInt64.not_le]
          intro hin
          have hnone := hclear second.lo
            (UInt64.le_of_lt (UInt64.not_le.mp hle)) hin
          rw [contains_cons, contains_lo hsecond, Bool.or_true] at hnone
          cases hnone
        have hexact := toNat_gap (hfar second List.mem_cons_self)
        rw [Interval.size_eq (Interval.isEmpty_eq_false_iff.mpr hr),
          UInt64.toNat_sub_of_le _ _ hr]
        rw [UInt64.le_iff_toNat_le] at hgap hr
        rw [UInt64.lt_iff_toNat_lt] at hafter hbefore
        omega

theorem tight_spanning {ranges : List AddressRange} (h : Canonical ranges)
    (hcut : cut? ranges = none) : ∀ b ∈ spanning ranges, Tight b := by
  cases ranges with
  | nil =>
      intro b hb
      cases hb
  | cons first others =>
      rcases cut?_eq_none hcut with ⟨hgaps, hfits⟩
      have hmember := member_cover h
      have hfirst := (canonical_iff.mp h).1 first List.mem_cons_self
      intro b hb
      rw [List.mem_singleton.mp hb]
      constructor
      · exact legal_cover (lo_le_getLast h) hfits _
      · exact (hmember _).trans (contains_lo hfirst others)
      · exact (hmember _).trans (contains_last h)
      · intro r hr hwithin hclear
        have hle := Interval.isEmpty_eq_false_iff.mp hr
        unfold Interval.containsInterval at hwithin
        rw [hr, Bool.false_or, Bool.and_eq_true, Interval.contains_iff,
          Interval.contains_iff] at hwithin
        apply size_le_of_clear h hgaps hle hwithin.1.1 hwithin.2.2
        intro x hx hx'
        rw [← hmember]
        exact hclear x (Interval.contains_iff.mpr ⟨hx, hx'⟩)

theorem tight_of_mem_partition {ranges : List AddressRange}
    (h : Canonical ranges) : ∀ b ∈ partition ranges, Tight b := by
  apply partition_induction (motive := fun _ bitmaps => ∀ b ∈ bitmaps, Tight b)
    _ _ h
  · intro ranges hranges hcut
    exact tight_spanning hranges hcut
  · intro ranges left right _ _ ihleft ihright b hb
    rcases List.mem_append.mp hb with hleft | hright
    · exact ihleft b hleft
    · exact ihright b hright

theorem contains_of_mem_partition {ranges : List AddressRange}
    (h : Canonical ranges) {b : Bitmap} (hb : b ∈ partition ranges) :
    contains ranges b.range.lo = true ∧ contains ranges b.range.hi = true := by
  have htight := tight_of_mem_partition h b hb
  rw [← member_partition h, ← member_partition h, List.any_eq_true,
    List.any_eq_true]
  exact ⟨⟨b, hb, htight.begins⟩, b, hb, htight.ends⟩

theorem pairwise_partition {ranges : List AddressRange} (h : Canonical ranges) :
    (partition ranges).Pairwise fun b c => b.range.hi < c.range.lo := by
  apply partition_induction
    (motive := fun _ bitmaps => bitmaps.Pairwise fun b c =>
      b.range.hi < c.range.lo) _ _ h
  · intro ranges _ _
    cases ranges with
    | nil =>
        exact List.Pairwise.nil
    | cons first others =>
        exact List.pairwise_singleton _ _
  · intro ranges left right hranges hparts ihleft ihright
    have hcut := cut_of_cut? hranges hparts
    refine List.pairwise_append.mpr ⟨ihleft, ihright, ?_⟩
    intro b hb c hc
    exact hcut.lt _ _ (contains_of_mem_partition hcut.canonical_left hb).2
      (contains_of_mem_partition hcut.canonical_right hc).1

/-! ## Lists that are not too wide -/

def joined (a b : AddressRange) : Bool :=
  gap a b ≤ threshold

/-- The bitmaps that a scan from left to right finds, which cuts at every gap
worth a bitmap. -/
def scan (ranges : List AddressRange) : List Bitmap :=
  (ranges.splitBy joined).flatMap spanning

theorem narrow_parts {ranges left right : List AddressRange}
    (hcut : Cut ranges left right) (h : Narrow ranges) :
    Narrow left ∧ Narrow right := by
  constructor
  · intro x y hx hy
    apply h x y
    · rw [hcut.contains_eq, hx, Bool.true_or]
    · rw [hcut.contains_eq, hy, Bool.true_or]
  · intro x y hx hy
    apply h x y
    · rw [hcut.contains_eq, hx, Bool.or_true]
    · rw [hcut.contains_eq, hy, Bool.or_true]

theorem Narrow.cut?_eq_some {ranges left right : List AddressRange}
    (h : Narrow ranges) (hranges : Canonical ranges)
    (hparts : cut? ranges = some (left, right)) :
    ∃ before a b later, Widest ranges before a b later ∧
      left = before ++ [a] ∧ right = b :: later ∧ threshold < gap a b := by
  rcases Partition.cut?_eq_some hranges hparts with
    ⟨before, a, b, later, hwidest, hleft, hright, hworth | hwide⟩ |
      ⟨r, rfl, hover, _⟩
  · exact ⟨before, a, b, later, hwidest, hleft, hright, hworth⟩
  · exact absurd h hwide
  · exact absurd h (not_narrow_of_oversized hranges hover)

theorem pairwise_partition_of_narrow {ranges : List AddressRange}
    (h : Canonical ranges) (hnarrow : Narrow ranges) :
    (partition ranges).Pairwise fun b c =>
      b.range.hi.toNat + threshold.toNat + 1 < c.range.lo.toNat := by
  revert hnarrow
  apply partition_induction
    (motive := fun ranges bitmaps => Narrow ranges →
      bitmaps.Pairwise fun b c =>
        b.range.hi.toNat + threshold.toNat + 1 < c.range.lo.toNat) _ _ h
  · intro ranges _ _ _
    cases ranges with
    | nil =>
        exact List.Pairwise.nil
    | cons first others =>
        exact List.pairwise_singleton _ _
  · intro ranges left right hranges hparts ihleft ihright hnarrow
    have hcut := cut_of_cut? hranges hparts
    rcases narrow_parts hcut hnarrow with ⟨hleft, hright⟩
    refine List.pairwise_append.mpr ⟨ihleft hleft, ihright hright, ?_⟩
    rcases hnarrow.cut?_eq_some hranges hparts with
      ⟨before, a, b, later, hwidest, rfl, rfl, hworth⟩
    intro c hc d hd
    have hlt := hwidest.lt hranges
      (contains_of_mem_partition hcut.canonical_left hc).2
      (contains_of_mem_partition hcut.canonical_right hd).1
    rw [UInt64.lt_iff_toNat_lt] at hworth
    omega

theorem partition_eq_scan {ranges : List AddressRange} (h : Canonical ranges)
    (hnarrow : Narrow ranges) : partition ranges = scan ranges := by
  revert hnarrow
  apply partition_induction
    (motive := fun ranges bitmaps =>
      Narrow ranges → bitmaps = scan ranges) _ _ h
  · intro ranges _ hcut _
    unfold scan
    cases ranges with
    | nil =>
        rfl
    | cons first others =>
        have hgaps := (cut?_eq_none hcut).1
        rw [List.splitBy_of_isChain (List.cons_ne_nil first others)]
        · exact (List.flatMap_singleton _ _).symm
        · refine hgaps.imp ?_
          intro a b hle
          exact decide_eq_true hle
  · intro ranges left right hranges hparts ihleft ihright hnarrow
    have hcut := cut_of_cut? hranges hparts
    rcases narrow_parts hcut hnarrow with ⟨hleft, hright⟩
    rw [ihleft hleft, ihright hright]
    rcases hnarrow.cut?_eq_some hranges hparts with
      ⟨before, a, b, later, hwidest, rfl, rfl, hworth⟩
    have happend : before ++ [a] ++ b :: later = ranges := by
      rw [List.append_assoc]
      exact hwidest.ranges_eq
    have hscan : (before ++ [a] ++ b :: later).splitBy joined =
        (before ++ [a]).splitBy joined ++ (b :: later).splitBy joined := by
      apply List.splitBy_append_cons
      intro r hr
      rw [List.getLast?_concat] at hr
      cases hr
      exact decide_eq_false (UInt64.not_le.mpr hworth)
    unfold scan
    rw [← happend, hscan, List.flatMap_append]

end Partition
end CudaProfile
