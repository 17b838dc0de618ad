import CudaProfile.Proofs.AddressSet.RangeList
import CudaProfile.Proofs.Order.Sorting
/-!
# Looking up intervals by overlap

Under the order by overlap a point is equal to every interval that contains it.
On intervals of any kind this is no order: two that have nothing in common may
both be equal to a third one. On intervals that are not empty and have no word
in common it is the order of their lower bounds. Arranged by it, those below a
point come first, then the one that contains it, if there is one, and then
those above it, so that a search which compares the point with one interval at
a time ends at the one that contains it.
-/

namespace CudaProfile

/-! ## Search by comparisons

What is sought is given by how it compares with an element. Each comparison
leaves the elements on one side of the element compared.
-/

/-- The element that compares as equal. Of the elements left, the one at
`place` is compared next, or the last if there are fewer; taken in the middle,
it halves them. -/
def bisect {α : Type} (place : List α → Nat) (order : α → Ordering)
    (xs : List α) : Option α :=
  match _h : xs.drop (min (place xs) (xs.length - 1)) with
  | [] => none
  | x :: after =>
      match order x with
      | .lt => bisect place order (xs.take (min (place xs) (xs.length - 1)))
      | .eq => some x
      | .gt => bisect place order after
termination_by xs.length
decreasing_by
  all_goals
    have hlength := congrArg List.length _h
    simp only [List.length_drop, List.length_cons, List.length_take] at *
    omega

/-- Whether what is sought comes after some first elements of a list, then
compares as equal with at most one, and comes before all others. -/
def Parted {α : Type} (order : α → Ordering) (xs : List α) : Prop :=
  xs.Pairwise fun x y => order x ≠ .gt → order y = .lt

namespace Parted

variable {α : Type} {order : α → Ordering} {xs before after : List α}
  {x found : α}

theorem eq_gt_of_mem_before (h : Parted order xs)
    (hxs : xs = before ++ x :: after) (hx : order x ≠ .lt) :
    ∀ y ∈ before, order y = .gt := by
  intro y hy
  rw [hxs] at h
  apply Decidable.by_contra
  intro hne
  exact hx ((List.pairwise_append.mp h).2.2 y hy x List.mem_cons_self hne)

theorem eq_lt_of_mem_after (h : Parted order xs)
    (hxs : xs = before ++ x :: after) (hx : order x ≠ .gt) :
    ∀ y ∈ after, order y = .lt := by
  intro y hy
  rw [hxs] at h
  exact List.rel_of_pairwise_cons (List.pairwise_append.mp h).2.1 hy hx

theorem found_before_iff (h : Parted order xs)
    (hxs : xs = before ++ x :: after) (hx : order x = .lt) :
    found ∈ before ∧ order found = .eq ↔ found ∈ xs ∧ order found = .eq := by
  have hafter := h.eq_lt_of_mem_after hxs (by simp [hx])
  grind

theorem eq_found_iff (h : Parted order xs) (hxs : xs = before ++ x :: after)
    (hx : order x = .eq) : x = found ↔ found ∈ xs ∧ order found = .eq := by
  have hbefore := h.eq_gt_of_mem_before hxs (by simp [hx])
  have hafter := h.eq_lt_of_mem_after hxs (by simp [hx])
  grind

theorem found_after_iff (h : Parted order xs)
    (hxs : xs = before ++ x :: after) (hx : order x = .gt) :
    found ∈ after ∧ order found = .eq ↔ found ∈ xs ∧ order found = .eq := by
  have hbefore := h.eq_gt_of_mem_before hxs (by simp [hx])
  grind

end Parted

/-- The search ends at what compares as equal, wherever it makes its
comparisons. -/
theorem bisect_eq_some_iff {α : Type} {place : List α → Nat}
    {order : α → Ordering} {xs : List α} (h : Parted order xs) (found : α) :
    bisect place order xs = some found ↔ found ∈ xs ∧ order found = .eq := by
  have sides : ∀ {xs after : List α} {x : α} {n : Nat},
      xs.drop n = x :: after → xs = xs.take n ++ x :: after := by
    intro xs after x n hdrop
    rw [← hdrop, List.take_append_drop]
  fun_induction bisect place order xs with
  | case1 xs hdrop =>
      have hlength := List.drop_eq_nil_iff.mp hdrop
      have hnil : xs = [] := List.eq_nil_of_length_eq_zero (by omega)
      simp [hnil]
  | case2 xs x after hdrop hx ih =>
      have hbefore := ih (h.sublist (List.take_sublist _ xs))
      exact hbefore.trans (h.found_before_iff (sides hdrop) hx)
  | case3 xs x after hdrop hx =>
      exact Option.some_inj.trans (h.eq_found_iff (sides hdrop) hx)
  | case4 xs x after hdrop hx ih =>
      have hrest : (x :: after).Sublist xs := hdrop ▸ List.drop_sublist _ xs
      have hafter := ih (h.sublist hrest).tail
      exact hafter.trans (h.found_after_iff (sides hdrop) hx)

namespace Interval

/-! ## Two intervals -/

variable {i j : Interval}

theorem Overlaps.symm (h : i.Overlaps j) : j.Overlaps i :=
  h.imp fun _ => And.symm

theorem overlaps_self (hi : i.lo ≤ i.hi) : i.Overlaps i :=
  ⟨i.lo, and_self_iff.mpr (contains_iff.mpr ⟨UInt64.le_refl _, hi⟩)⟩

theorem overlapOrder_eq_lt_iff : i.overlapOrder j = .lt ↔ i.hi < j.lo := by
  unfold overlapOrder
  grind

theorem overlapOrder_eq_gt_iff (hi : i.lo ≤ i.hi) (hj : j.lo ≤ j.hi) :
    i.overlapOrder j = .gt ↔ j.hi < i.lo := by
  unfold overlapOrder
  grind

theorem overlapOrder_eq_eq_iff (hi : i.lo ≤ i.hi) (hj : j.lo ≤ j.hi) :
    i.overlapOrder j = .eq ↔ i.Overlaps j := by
  simp only [Overlaps, contains_iff]
  constructor
  · intro heq
    -- Of two intervals that overlap one contains the lower bound of the other.
    refine ⟨max i.lo j.lo, ?_⟩
    unfold overlapOrder at heq
    rw [max_eq]
    grind
  · intro h
    rcases h with ⟨x, hx, hx'⟩
    unfold overlapOrder
    grind

/-- Overlapping is not passed on from one interval to the next. -/
example :
    overlapOrder ⟨0, 5⟩ ⟨5, 9⟩ = .eq ∧ overlapOrder ⟨5, 9⟩ ⟨9, 12⟩ = .eq ∧
      overlapOrder ⟨0, 5⟩ ⟨9, 12⟩ = .lt := by
  decide

/-! ## An interval and a point -/

theorem point_overlapOrder_eq_eq_iff {p : UInt64} (hi : i.lo ≤ i.hi) :
    (point p).overlapOrder i = .eq ↔ i.contains p = true := by
  rw [overlapOrder_eq_eq_iff (UInt64.le_refl p) hi]
  simp [Overlaps, contains_point]

theorem point_overlapOrder_eq_gt_iff {p : UInt64} (hi : i.lo ≤ i.hi) :
    (point p).overlapOrder i = .gt ↔ ∀ x, i.contains x = true → x < p := by
  rw [overlapOrder_eq_gt_iff (UInt64.le_refl p) hi]
  simp only [contains_iff]
  constructor
  · intro hbelow x hx
    exact UInt64.lt_of_le_of_lt hx.2 hbelow
  · intro hall
    exact hall i.hi ⟨hi, UInt64.le_refl _⟩

theorem point_overlapOrder_eq_lt_iff {p : UInt64} (hi : i.lo ≤ i.hi) :
    (point p).overlapOrder i = .lt ↔ ∀ x, i.contains x = true → p < x := by
  rw [overlapOrder_eq_lt_iff]
  simp only [contains_iff]
  constructor
  · intro habove x hx
    exact UInt64.lt_of_lt_of_le habove hx.1
  · intro hall
    exact hall i.lo ⟨UInt64.le_refl _, hi⟩

/-! ## Intervals without a common word -/

/-- No interval of the family is empty, and no two have a word in common. -/
structure Separate (family : List Interval) : Prop where
  nonempty : ∀ i ∈ family, i.isEmpty = false
  disjoint : family.Pairwise fun i j => ¬i.Overlaps j

def byOverlap (family : List Interval) : List Interval :=
  sortBy (fun i j => i.overlapOrder j = .lt) family

theorem byOverlap_perm (family : List Interval) :
    (byOverlap family).Perm family :=
  sortBy_perm _ family

theorem separate_iff {family : List Interval} :
    Separate family ↔ (∀ i ∈ family, i.isEmpty = false) ∧
      family.Pairwise fun i j => i.overlapOrder j ≠ .eq := by
  have hdisjoint (hfull : ∀ i ∈ family, i.isEmpty = false) :
      (family.Pairwise fun i j => ¬i.Overlaps j) ↔
        family.Pairwise fun i j => i.overlapOrder j ≠ .eq := by
    apply List.Pairwise.iff_of_mem
    intro i j hi hj
    rw [ne_eq, overlapOrder_eq_eq_iff (isEmpty_eq_false_iff.mp (hfull i hi))
      (isEmpty_eq_false_iff.mp (hfull j hj))]
  constructor
  · intro h
    exact ⟨h.nonempty, (hdisjoint h.nonempty).mp h.disjoint⟩
  · intro h
    exact ⟨h.1, (hdisjoint h.1).mpr h.2⟩

instance (family : List Interval) : Decidable (Separate family) :=
  decidable_of_iff _ separate_iff.symm

namespace Separate

variable {family : List Interval}

theorem lo_le_hi (h : Separate family) (hi : i ∈ family) : i.lo ≤ i.hi :=
  isEmpty_eq_false_iff.mp (h.nonempty i hi)

theorem perm {family' : List Interval} (h : Separate family)
    (hperm : family'.Perm family) : Separate family' where
  nonempty i hi := h.nonempty i (hperm.mem_iff.mp hi)
  disjoint := (hperm.pairwise_iff fun hnot hoverlaps => hnot hoverlaps.symm).mpr
    h.disjoint

theorem overlapOrder_eq_eq_iff_eq (h : Separate family) (hi : i ∈ family)
    (hj : j ∈ family) : i.overlapOrder j = .eq ↔ i = j := by
  rw [overlapOrder_eq_eq_iff (h.lo_le_hi hi) (h.lo_le_hi hj)]
  constructor
  · intro hoverlaps
    apply Decidable.by_contra
    intro hne
    have hsymm : Std.Symm fun i j : Interval => ¬i.Overlaps j :=
      ⟨fun i j hnot hoverlaps => hnot hoverlaps.symm⟩
    exact h.disjoint.forall hi hj hne hoverlaps
  · intro heq
    rw [← heq]
    exact overlaps_self (h.lo_le_hi hi)

theorem overlapOrder_eq_compare (h : Separate family) (hi : i ∈ family)
    (hj : j ∈ family) : i.overlapOrder j = compare i.lo j.lo := by
  have hfull := h.lo_le_hi hi
  have hfull' := h.lo_le_hi hj
  cases horder : i.overlapOrder j with
  | lt =>
      rw [overlapOrder_eq_lt_iff] at horder
      exact (Std.compare_eq_lt.mpr (UInt64.lt_of_le_of_lt hfull horder)).symm
  | eq =>
      rw [(h.overlapOrder_eq_eq_iff_eq hi hj).mp horder]
      exact Std.ReflCmp.compare_self.symm
  | gt =>
      rw [overlapOrder_eq_gt_iff hfull hfull'] at horder
      exact (Std.compare_eq_gt.mpr (UInt64.lt_of_le_of_lt hfull' horder)).symm

theorem overlapOrder_eq_lt_iff_lo (h : Separate family) (hi : i ∈ family)
    (hj : j ∈ family) : i.overlapOrder j = .lt ↔ i.lo < j.lo := by
  rw [h.overlapOrder_eq_compare hi hj, Std.compare_eq_lt]

theorem eq_of_lo_eq (h : Separate family) (hi : i ∈ family) (hj : j ∈ family)
    (hlo : i.lo = j.lo) : i = j := by
  rw [← h.overlapOrder_eq_eq_iff_eq hi hj, h.overlapOrder_eq_compare hi hj,
    hlo]
  exact Std.ReflCmp.compare_self

theorem isStrictTotalOrder (h : Separate family) :
    IsStrictTotalOrder {i // i ∈ family}
      fun i j => i.1.overlapOrder j.1 = .lt where
  irrefl i := by
    rw [h.overlapOrder_eq_lt_iff_lo i.2 i.2]
    exact UInt64.lt_irrefl _
  trans i j k := by
    rw [h.overlapOrder_eq_lt_iff_lo i.2 j.2,
      h.overlapOrder_eq_lt_iff_lo j.2 k.2, h.overlapOrder_eq_lt_iff_lo i.2 k.2]
    exact UInt64.lt_trans
  trichotomous i j := by
    rw [h.overlapOrder_eq_lt_iff_lo i.2 j.2,
      h.overlapOrder_eq_lt_iff_lo j.2 i.2, UInt64.not_lt, UInt64.not_lt]
    intro hle hle'
    exact Subtype.ext (h.eq_of_lo_eq i.2 j.2 (UInt64.le_antisymm hle' hle))

/-! ### The family in order -/

theorem weakOrder (h : Separate family) :
    Sorting.WeakOrder (fun i j : Interval => i.overlapOrder j = .lt)
      (· ∈ family) where
  asymm hi hj := by
    simp only [decide_eq_true_eq, decide_eq_false_iff_not,
      h.overlapOrder_eq_lt_iff_lo hi hj, h.overlapOrder_eq_lt_iff_lo hj hi]
    exact UInt64.lt_asymm
  between hi hj hk := by
    simp only [decide_eq_true_eq, h.overlapOrder_eq_lt_iff_lo hi hj,
      h.overlapOrder_eq_lt_iff_lo hj hk, h.overlapOrder_eq_lt_iff_lo hi hk]
    grind

theorem pairwise_byOverlap (h : Separate family) :
    (byOverlap family).Pairwise fun i j => i.overlapOrder j = .lt := by
  have hsorts := sortBy_sorts h.weakOrder fun _ hi => hi
  have hsorted : Separate (byOverlap family) := h.perm hsorts.perm
  refine (hsorts.ordered.and (separate_iff.mp hsorted).2).imp_of_mem ?_
  intro i j hi hj hparts
  rcases hparts with ⟨hnot, hne⟩
  rw [decide_eq_false_iff_not, overlapOrder_eq_lt_iff] at hnot
  cases horder : i.overlapOrder j with
  | lt =>
      rfl
  | eq =>
      exact absurd horder hne
  | gt =>
      rw [overlapOrder_eq_gt_iff (hsorted.lo_le_hi hi)
        (hsorted.lo_le_hi hj)] at horder
      exact absurd horder hnot

theorem eq_byOverlap_iff (h : Separate family) (sorted : List Interval) :
    sorted.Perm family ∧
        sorted.Pairwise (fun i j => i.overlapOrder j = .lt) ↔
      sorted = byOverlap family := by
  have hfamily := byOverlap_perm family
  constructor
  · intro hsorted
    rcases hsorted with ⟨hperm, horder⟩
    refine (hperm.trans hfamily.symm).eq_of_pairwise ?_ horder
      h.pairwise_byOverlap
    intro i j hi hj hlt hgt
    have hi := hperm.mem_iff.mp hi
    have hj := hfamily.mem_iff.mp hj
    rw [h.overlapOrder_eq_lt_iff_lo hi hj] at hlt
    rw [h.overlapOrder_eq_lt_iff_lo hj hi] at hgt
    exact absurd hgt (UInt64.lt_asymm hlt)
  · intro heq
    rw [heq]
    exact ⟨hfamily, h.pairwise_byOverlap⟩

theorem parted_byOverlap (h : Separate family) (p : UInt64) :
    Parted (point p).overlapOrder (byOverlap family) := by
  refine h.pairwise_byOverlap.imp_of_mem ?_
  intro i j hi _ hlt hnot
  have hi := (byOverlap_perm family).mem_iff.mp hi
  rw [ne_eq, overlapOrder_eq_gt_iff (UInt64.le_refl p) (h.lo_le_hi hi)] at hnot
  rw [overlapOrder_eq_lt_iff] at hlt ⊢
  -- The point is not beyond the end of the earlier interval.
  exact UInt64.lt_of_le_of_lt (UInt64.not_lt.mp hnot) hlt

theorem bisect_byOverlap (h : Separate family) (place : List Interval → Nat)
    (p : UInt64) (found : Interval) :
    bisect place (point p).overlapOrder (byOverlap family) = some found ↔
      found ∈ family ∧ found.contains p = true := by
  rw [bisect_eq_some_iff (h.parted_byOverlap p),
    (byOverlap_perm family).mem_iff]
  apply and_congr_right
  intro hfound
  exact point_overlapOrder_eq_eq_iff (h.lo_le_hi hfound)

end Separate

/-- Intervals without a common word are ordered by overlap as by where they
begin. A point is equal to the one that contains it, beyond those that lie
wholly below it and before those that lie wholly above it. So it parts the
intervals in order, and a search of them finds the one that contains the point
exactly if there is one, wherever it makes its comparisons. -/
theorem lookup_by_overlap {family : List Interval} (h : Separate family) :
    IsStrictTotalOrder {i // i ∈ family}
      (fun i j => i.1.overlapOrder j.1 = .lt) ∧
    (∀ i ∈ family, ∀ j ∈ family,
      (i.overlapOrder j = .eq ↔ i = j) ∧
      i.overlapOrder j = compare i.lo j.lo) ∧
    (∀ sorted : List Interval,
      sorted.Perm family ∧
          sorted.Pairwise (fun i j => i.overlapOrder j = .lt) ↔
        sorted = byOverlap family) ∧
    ∀ p,
      (∀ i ∈ family,
        ((point p).overlapOrder i = .eq ↔ i.contains p = true) ∧
        ((point p).overlapOrder i = .gt ↔
          ∀ x, i.contains x = true → x < p) ∧
        ((point p).overlapOrder i = .lt ↔
          ∀ x, i.contains x = true → p < x)) ∧
      Parted (point p).overlapOrder (byOverlap family) ∧
      ∀ place found,
        bisect place (point p).overlapOrder (byOverlap family) = some found ↔
          found ∈ family ∧ found.contains p = true := by
  refine ⟨h.isStrictTotalOrder, ?_, h.eq_byOverlap_iff, ?_⟩
  · intro i hi j hj
    exact ⟨h.overlapOrder_eq_eq_iff_eq hi hj, h.overlapOrder_eq_compare hi hj⟩
  · intro p
    refine ⟨?_, h.parted_byOverlap p, fun place found =>
      h.bisect_byOverlap place p found⟩
    intro i hi
    have hfull := h.lo_le_hi hi
    exact ⟨point_overlapOrder_eq_eq_iff hfull,
      point_overlapOrder_eq_gt_iff hfull, point_overlapOrder_eq_lt_iff hfull⟩

/-- Three intervals, two of them at the ends of the words, searched by halves
for the last word, and for one that none of them contains. -/
theorem lookup_by_overlap_at_the_ends :
    Separate [point maxWord, ⟨8, maxWord - 1⟩, ⟨0, 5⟩] ∧
    bisect (fun xs => xs.length / 2) (point maxWord).overlapOrder
      (byOverlap [point maxWord, ⟨8, maxWord - 1⟩, ⟨0, 5⟩]) =
        some (point maxWord) ∧
    bisect (fun xs => xs.length / 2) (point 6).overlapOrder
      (byOverlap [point maxWord, ⟨8, maxWord - 1⟩, ⟨0, 5⟩]) = none := by
  have hseparate : Separate [point maxWord, ⟨8, maxWord - 1⟩, ⟨0, 5⟩] := by
    decide
  have hsearch := (lookup_by_overlap hseparate).2.2.2
  refine ⟨hseparate, ((hsearch maxWord).2.2 _ _).mpr (by decide), ?_⟩
  have hnone : ∀ i ∈ [point maxWord, ⟨8, maxWord - 1⟩, ⟨0, 5⟩],
      i.contains 6 = false := by
    decide
  apply Option.eq_none_iff_forall_ne_some.mpr
  intro found hfound
  rcases ((hsearch 6).2.2 _ _).mp hfound with ⟨hmem, hcontains⟩
  exact Bool.false_ne_true ((hnone found hmem).symm.trans hcontains)

end Interval
end CudaProfile
