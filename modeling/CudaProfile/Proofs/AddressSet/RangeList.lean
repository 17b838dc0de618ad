import CudaProfile.AddressSet.Spaced
/-!
# What lists of ranges contain

Whether an address lies in a list of ranges is followed through normalizing,
meeting and subtracting. Words wrap at the top of the address space, so every
step past a bound is taken where the bound is known not to be the last word.
-/

namespace CudaProfile

namespace Interval

theorem contains_iff {i : Interval} {value : UInt64} :
    i.contains value = true ↔ i.lo ≤ value ∧ value ≤ i.hi := by
  simp [contains]

theorem contains_eq_false_iff {i : Interval} {value : UInt64} :
    i.contains value = false ↔ ¬(i.lo ≤ value ∧ value ≤ i.hi) := by
  rw [Bool.eq_false_iff, ne_eq, contains_iff]

theorem contains_eq_false_of_isEmpty {i : Interval} (h : i.isEmpty = true)
    (value : UInt64) : i.contains value = false := by
  have hlt : i.hi < i.lo := by simpa [isEmpty] using h
  rw [Bool.eq_false_iff]
  intro hvalue
  rcases contains_iff.mp hvalue with ⟨hlo, hhi⟩
  grind

theorem isEmpty_eq_false_iff {i : Interval} :
    i.isEmpty = false ↔ i.lo ≤ i.hi := by
  simp [isEmpty]

theorem contains_point (value other : UInt64) :
    (point value).contains other = decide (other = value) := by
  rw [Bool.eq_iff_iff, contains_iff, decide_eq_true_eq]
  change value ≤ other ∧ other ≤ value ↔ other = value
  grind

theorem contains_meet (i j : Interval) (value : UInt64) :
    (i.meet j).contains value = (i.contains value && j.contains value) := by
  have hempty : empty.isEmpty = true := rfl
  unfold meet
  split
  · next hsome =>
    rw [contains_eq_false_of_isEmpty hempty]
    rcases Bool.or_eq_true_iff.mp hsome with hi | hj
    · rw [contains_eq_false_of_isEmpty hi, Bool.false_and]
    · rw [contains_eq_false_of_isEmpty hj, Bool.and_false]
  · have hcommon :
        (⟨max i.lo j.lo, min i.hi j.hi⟩ : Interval).contains value =
          (i.contains value && j.contains value) := by
      rw [Bool.eq_iff_iff, Bool.and_eq_true]
      simp only [contains_iff, max_eq, min_eq]
      grind
    simp only
    split
    · next hnone =>
      rw [← hcommon, contains_eq_false_of_isEmpty hempty,
        contains_eq_false_of_isEmpty hnone]
    · exact hcommon

def Overlaps (i j : Interval) : Prop :=
  ∃ word, i.contains word = true ∧ j.contains word = true

theorem intersects_iff (i j : Interval) :
    i.intersects j = true ↔ i.Overlaps j := by
  have hcommon : i.Overlaps j ↔ ∃ word, (i.meet j).contains word = true := by
    simp only [Overlaps, contains_meet, Bool.and_eq_true]
  rw [hcommon, intersects, Bool.not_eq_true', isEmpty_eq_false_iff]
  constructor
  · intro h
    exact ⟨(i.meet j).lo, contains_iff.mpr ⟨UInt64.le_refl _, h⟩⟩
  · rintro ⟨word, hword⟩
    rcases contains_iff.mp hword with ⟨hlo, hhi⟩
    exact UInt64.le_trans hlo hhi

instance (i j : Interval) : Decidable (i.Overlaps j) :=
  decidable_of_iff _ (intersects_iff i j)

theorem full_contains (value : UInt64) : full.contains value = true := by
  rw [contains_iff]
  change 0 ≤ value ∧ value ≤ maxWord
  have hlt := value.toNat_lt
  rw [UInt64.le_iff_toNat_le, UInt64.le_iff_toNat_le]
  have hmax : maxWord.toNat = 18446744073709551615 := rfl
  have hzero : (0 : UInt64).toNat = 0 := rfl
  omega

theorem contains_hull {i j : Interval} (hi : i.lo ≤ i.hi) (hj : j.lo ≤ j.hi)
    (hle : i.lo ≤ j.lo) (htouch : i.hi = maxWord ∨ j.lo ≤ i.hi + 1)
    (value : UInt64) :
    (i.hull j).contains value = (i.contains value || j.contains value) := by
  have hhull : i.hull j = ⟨min i.lo j.lo, max i.hi j.hi⟩ := by
    simp [hull, isEmpty_eq_false_iff.mpr hi, isEmpty_eq_false_iff.mpr hj]
  rw [hhull, Bool.eq_iff_iff, Bool.or_eq_true]
  simp only [contains_iff, max_eq, min_eq]
  have hnext : i.hi < value → j.lo ≤ value := by
    intro hlt
    rcases htouch with hmax | hle
    · have hfull := contains_iff.mp (full_contains value)
      rw [hmax] at hlt
      exact absurd hlt (UInt64.not_lt.mpr hfull.2)
    · rw [UInt64.lt_iff_toNat_lt] at hlt
      rw [UInt64.le_iff_toNat_le, UInt64.toNat_add] at hle
      rw [UInt64.le_iff_toNat_le]
      have hone : (1 : UInt64).toNat = 1 := rfl
      omega
  grind

end Interval

namespace RangeList

/-! ## Canonical lists -/

theorem spaced_iff {lo hi : Nat} {ranges : List AddressRange} :
    Spaced lo hi ranges ↔
      (∀ r ∈ ranges, Within lo hi r) ∧
        ranges.Pairwise fun r s => r.hi.toNat + 2 ≤ s.lo.toNat := by
  induction ranges generalizing lo with
  | nil =>
      simp [Spaced]
  | cons r rest ih =>
      rw [List.pairwise_cons, List.forall_mem_cons]
      constructor
      · intro hspaced
        rcases hspaced with ⟨hlo, hle, hhi, hrest⟩
        have hnat := UInt64.le_iff_toNat_le.mp hle
        rcases ih.mp hrest with ⟨hwithin, hpairs⟩
        refine ⟨⟨⟨hlo, hle, hhi⟩, ?_⟩, ?_, hpairs⟩
        · intro s hs
          rcases hwithin s hs with ⟨hfar, hs⟩
          exact ⟨by omega, hs⟩
        · intro s hs
          exact (hwithin s hs).1
      · intro hspaced
        rcases hspaced with ⟨⟨⟨hlo, hle, hhi⟩, hwithin⟩, hfar, hpairs⟩
        refine ⟨hlo, hle, hhi, ih.mpr ⟨?_, hpairs⟩⟩
        intro s hs
        exact ⟨hfar s hs, (hwithin s hs).2⟩

/-- Canonical, wherever in the address space. -/
def Canonical (ranges : List AddressRange) : Prop :=
  Spaced 0 Interval.maxWord.toNat ranges

theorem toNat_le_maxWord (a : Address) :
    a.toNat ≤ Interval.maxWord.toNat := by
  have hlt := a.toNat_lt
  have hmax : Interval.maxWord.toNat = 18446744073709551615 := rfl
  omega

theorem canonical_normalize (ranges : List AddressRange) :
    Canonical (normalize ranges) := by
  apply spaced_normalize
  intro r _ hfull
  exact ⟨Nat.zero_le _, Interval.isEmpty_eq_false_iff.mp hfull,
    toNat_le_maxWord r.hi⟩

theorem canonical_iff {ranges : List AddressRange} :
    Canonical ranges ↔
      (∀ r ∈ ranges, r.lo ≤ r.hi) ∧
        ranges.Pairwise fun r s => r.hi.toNat + 2 ≤ s.lo.toNat := by
  unfold Canonical
  rw [spaced_iff]
  apply and_congr_left
  intro _
  constructor
  · intro h r hr
    exact (h r hr).2.1
  · intro h r hr
    exact ⟨Nat.zero_le _, h r hr, toNat_le_maxWord r.hi⟩

theorem Spaced.canonical {lo hi : Nat} {ranges : List AddressRange}
    (h : Spaced lo hi ranges) : Canonical ranges := by
  rcases spaced_iff.mp h with ⟨hwithin, hpairs⟩
  exact canonical_iff.mpr ⟨fun r hr => (hwithin r hr).2.1, hpairs⟩

theorem canonical_cons_iff {r : AddressRange} {rest : List AddressRange} :
    Canonical (r :: rest) ↔
      r.lo ≤ r.hi ∧ (∀ s ∈ rest, r.hi.toNat + 2 ≤ s.lo.toNat) ∧
        Canonical rest := by
  rw [canonical_iff, canonical_iff, List.forall_mem_cons, List.pairwise_cons]
  constructor
  · intro h
    rcases h with ⟨⟨hfull, hrest⟩, hfar, hpairs⟩
    exact ⟨hfull, hfar, hrest, hpairs⟩
  · intro h
    rcases h with ⟨hfull, hfar, hrest, hpairs⟩
    exact ⟨⟨hfull, hrest⟩, hfar, hpairs⟩

/-! ## Membership -/

@[simp] theorem contains_nil (x : Address) : contains [] x = false :=
  rfl

theorem contains_cons (r : AddressRange) (rest : List AddressRange)
    (x : Address) :
    contains (r :: rest) x = (r.contains x || contains rest x) :=
  rfl

theorem contains_append (a b : List AddressRange) (x : Address) :
    contains (a ++ b) x = (contains a x || contains b x) := by
  simp [contains]

theorem contains_iff {ranges : List AddressRange} {x : Address} :
    contains ranges x = true ↔
      ∃ r ∈ ranges, r.lo ≤ x ∧ x ≤ r.hi := by
  simp [contains, Interval.contains_iff]

theorem contains_flatMap {α : Type} (f : α → List AddressRange)
    (items : List α) (x : Address) :
    contains (items.flatMap f) x =
      items.any fun item => contains (f item) x := by
  simp [contains, List.any_flatMap]

theorem lt_of_toNat_add_two_le {a b : Address} (h : a.toNat + 2 ≤ b.toNat) :
    a < b := by
  rw [UInt64.lt_iff_toNat_lt]
  omega

theorem lo_le_of_mem {r s : AddressRange} {rest : List AddressRange}
    (h : (∀ t ∈ r :: rest, t.lo ≤ t.hi) ∧
      (r :: rest).Pairwise fun t u => t.hi.toNat + 2 ≤ u.lo.toNat)
    (hs : s ∈ r :: rest) : r.lo ≤ s.lo := by
  rcases List.mem_cons.mp hs with rfl | hs
  · exact UInt64.le_refl _
  · have hfar := (List.pairwise_cons.mp h.2).1 s hs
    exact UInt64.le_trans (h.1 r (by simp))
      (UInt64.le_of_lt (lt_of_toNat_add_two_le hfar))

theorem contains_eq_false_of_lt {ranges : List AddressRange} {x bound : Address}
    (hfar : ∀ r ∈ ranges, bound < r.lo) (hx : x ≤ bound) :
    contains ranges x = false := by
  rw [Bool.eq_false_iff]
  intro hmem
  rcases contains_iff.mp hmem with ⟨r, hr, hlo, _⟩
  have hlt := UInt64.lt_of_lt_of_le (hfar r hr) hlo
  exact UInt64.not_lt.mpr hx hlt

/-! ## Lists by their addresses -/

theorem contains_lo {r : AddressRange} (h : r.lo ≤ r.hi)
    (rest : List AddressRange) : contains (r :: rest) r.lo = true :=
  contains_iff.mpr ⟨r, List.mem_cons_self, UInt64.le_refl _, h⟩

theorem hi_le_of_contains_eq {r s : AddressRange} {a b : List AddressRange}
    (ha : Canonical (r :: a)) (hlo : r.lo = s.lo)
    (h : ∀ x, contains (r :: a) x = contains (s :: b) x) : s.hi ≤ r.hi := by
  rcases canonical_cons_iff.mp ha with ⟨hfull, hfar, _⟩
  apply UInt64.not_lt.mp
  intro hlt
  rw [UInt64.lt_iff_toNat_lt] at hlt
  have hbound := s.hi.toNat_lt
  have hone : (1 : UInt64).toNat = 1 := rfl
  have hnext : (r.hi + 1).toNat = r.hi.toNat + 1 := by
    rw [UInt64.toNat_add]
    omega
  -- The address after the first range would be in the other list only.
  have hin : contains (s :: b) (r.hi + 1) = true := by
    refine contains_iff.mpr ⟨s, List.mem_cons_self, ?_, ?_⟩
    · rw [UInt64.le_iff_toNat_le] at hfull ⊢
      rw [← hlo]
      omega
    · rw [UInt64.le_iff_toNat_le]
      omega
  rw [← h] at hin
  rcases contains_iff.mp hin with ⟨t, ht, hfrom, hto⟩
  rw [UInt64.le_iff_toNat_le] at hfrom hto
  rcases List.mem_cons.mp ht with rfl | ht
  · omega
  · have := hfar t ht
    omega

/-- Only one canonical list has given addresses. -/
theorem eq_of_contains_eq {a b : List AddressRange} (ha : Canonical a)
    (hb : Canonical b) (h : ∀ x, contains a x = contains b x) : a = b := by
  induction a generalizing b with
  | nil =>
      cases b with
      | nil =>
          rfl
      | cons s b =>
          have hs := (canonical_cons_iff.mp hb).1
          have hlo := contains_lo hs b
          rw [← h] at hlo
          cases hlo
  | cons r a ih =>
      cases b with
      | nil =>
          have hr := (canonical_cons_iff.mp ha).1
          have hlo := contains_lo hr a
          rw [h] at hlo
          cases hlo
      | cons s b =>
          rcases canonical_cons_iff.mp ha with ⟨hr, hfar, hrest⟩
          rcases canonical_cons_iff.mp hb with ⟨hs, hfar', hrest'⟩
          have hlo : r.lo = s.lo := by
            have hins := contains_lo hr a
            have hinr := contains_lo hs b
            rw [h] at hins
            rw [← h] at hinr
            rcases contains_iff.mp hins with ⟨t, ht, hle, _⟩
            rcases contains_iff.mp hinr with ⟨u, hu, hle', _⟩
            have hfirst := lo_le_of_mem (canonical_iff.mp hb) ht
            have hfirst' := lo_le_of_mem (canonical_iff.mp ha) hu
            exact UInt64.le_antisymm (UInt64.le_trans hfirst' hle')
              (UInt64.le_trans hfirst hle)
          have hhi : r.hi = s.hi := UInt64.le_antisymm
            (hi_le_of_contains_eq hb hlo.symm fun x => (h x).symm)
            (hi_le_of_contains_eq ha hlo h)
          have hsame : r = s := by
            cases r
            cases s
            cases hlo
            cases hhi
            rfl
          subst hsame
          apply congrArg (List.cons r)
          apply ih hrest hrest'
          intro x
          by_cases hx : x ≤ r.hi
          · rw [contains_eq_false_of_lt
                (fun t ht => lt_of_toNat_add_two_le (hfar t ht)) hx,
              contains_eq_false_of_lt
                (fun t ht => lt_of_toNat_add_two_le (hfar' t ht)) hx]
          · have hout : r.contains x = false :=
              Interval.contains_eq_false_iff.mpr fun hin => hx hin.2
            have hx' := h x
            rw [contains_cons, contains_cons, hout, Bool.false_or,
              Bool.false_or] at hx'
            exact hx'

/-! ## Normalizing -/

theorem contains_coalesceFrom {current : AddressRange}
    {ranges : List AddressRange} (hcurrent : current.lo ≤ current.hi)
    (hranges : ∀ r ∈ ranges, r.lo ≤ r.hi ∧ current.lo ≤ r.lo)
    (hascending : ranges.Pairwise fun a b => a.lo ≤ b.lo) (x : Address) :
    contains (coalesceFrom current ranges) x =
      (current.contains x || contains ranges x) := by
  induction ranges generalizing current with
  | nil =>
      rfl
  | cons next rest ih =>
      rcases hranges next (by simp) with ⟨hnext, hle⟩
      rcases List.pairwise_cons.mp hascending with ⟨hafter, hrest⟩
      unfold coalesceFrom
      split
      · next htouch =>
        have htouch : current.hi = Interval.maxWord ∨
            next.lo ≤ current.hi + 1 := by simpa using htouch
        have hhull := within_hull ⟨Nat.zero_le _, hcurrent, toNat_le_maxWord _⟩
          ⟨Nat.zero_le _, hnext, toNat_le_maxWord _⟩ hle
        have hin : ∀ r ∈ rest, r.lo ≤ r.hi ∧ (current.hull next).lo ≤ r.lo := by
          intro r hr
          rw [hhull.2]
          exact hranges r (by simp [hr])
        rw [ih hhull.1.2.1 hin hrest, contains_cons,
          Interval.contains_hull hcurrent hnext hle htouch, Bool.or_assoc]
      · have hin : ∀ r ∈ rest, r.lo ≤ r.hi ∧ next.lo ≤ r.lo := by
          intro r hr
          exact ⟨(hranges r (by simp [hr])).1, hafter r hr⟩
        rw [contains_cons, ih hnext hin hrest, contains_cons]

theorem contains_nonempty (ranges : List AddressRange) (x : Address) :
    contains (ranges.filter fun r => !r.isEmpty) x = contains ranges x := by
  induction ranges with
  | nil =>
      rfl
  | cons r rest ih =>
      cases hempty : r.isEmpty with
      | true =>
          rw [List.filter_cons_of_neg (by simp [hempty]), ih, contains_cons,
            Interval.contains_eq_false_of_isEmpty hempty, Bool.false_or]
      | false =>
          rw [List.filter_cons_of_pos (by simp [hempty]), contains_cons, ih,
            contains_cons]

theorem contains_ascending (ranges : List AddressRange) (x : Address) :
    contains (ascending ranges) x = contains ranges x := by
  rw [Bool.eq_iff_iff, contains_iff, contains_iff]
  simp only [mem_ascending]

theorem contains_normalize (ranges : List AddressRange) (x : Address) :
    contains (normalize ranges) x = contains ranges x := by
  have hkept : contains (ascending (ranges.filter fun r => !r.isEmpty)) x =
      contains ranges x := by
    rw [contains_ascending, contains_nonempty]
  have hnonempty : ∀ r ∈ ascending (ranges.filter fun r => !r.isEmpty),
      r.lo ≤ r.hi := by
    intro r hr
    have hr := (List.mem_filter.mp (mem_ascending.mp hr)).2
    exact Interval.isEmpty_eq_false_iff.mp (by simpa using hr)
  have hpairs := pairwise_ascending fun r hr =>
    hnonempty r (mem_ascending.mpr hr)
  rw [← hkept]
  unfold normalize
  cases hlist : ascending (ranges.filter fun r => !r.isEmpty) with
  | nil =>
      rfl
  | cons first rest =>
      rw [hlist] at hnonempty hpairs
      rcases List.pairwise_cons.mp hpairs with ⟨hafter, hrest⟩
      apply contains_coalesceFrom (hnonempty first (by simp)) _ hrest
      intro r hr
      exact ⟨hnonempty r (by simp [hr]), hafter r hr⟩

theorem canonical_union (a b : List AddressRange) : Canonical (union a b) :=
  canonical_normalize _

theorem contains_union (a b : List AddressRange) (x : Address) :
    contains (union a b) x = (contains a x || contains b x) := by
  unfold union
  rw [contains_normalize, contains_append]

/-! ## Meeting

Of two ranges at the front the one that ends first has met all that it can:
what follows the other begins after that one's end.
-/

theorem contains_found (r s : AddressRange) (x : Address) :
    contains (if (r.meet s).isEmpty then [] else [r.meet s]) x =
      (r.contains x && s.contains x) := by
  rw [← Interval.contains_meet]
  split
  · next hempty =>
    rw [Interval.contains_eq_false_of_isEmpty hempty, contains_nil]
  · rw [contains_cons, contains_nil, Bool.or_false]

theorem contains_intersection {a b : List AddressRange} (ha : Canonical a)
    (hb : Canonical b) (x : Address) :
    contains (intersection a b) x = (contains a x && contains b x) := by
  rw [canonical_iff] at ha hb
  fun_induction intersection a b with
  | case1 b =>
      rfl
  | case2 r rest =>
      simp
  | case3 r as s bs common found hlt ih =>
      rcases List.pairwise_cons.mp ha.2 with ⟨_, has⟩
      rcases List.pairwise_cons.mp hb.2 with ⟨hfar, _⟩
      have hfound : contains found x = (r.contains x && s.contains x) :=
        contains_found r s x
      have hlater : r.contains x = true → contains bs x = false := by
        intro hx
        apply contains_eq_false_of_lt fun t ht =>
          lt_of_toNat_add_two_le (hfar t ht)
        exact UInt64.le_trans (Interval.contains_iff.mp hx).2
          (UInt64.le_of_lt hlt)
      rw [contains_append, hfound,
        ih ⟨fun t ht => ha.1 t (by simp [ht]), has⟩ hb,
        contains_cons, contains_cons]
      cases hr : r.contains x with
      | false =>
          simp
      | true =>
          rw [hlater hr]
          cases s.contains x <;> simp
  | case4 r as s bs common found hge ih =>
      rcases List.pairwise_cons.mp ha.2 with ⟨hfar, _⟩
      rcases List.pairwise_cons.mp hb.2 with ⟨_, hbs⟩
      have hfound : contains found x = (r.contains x && s.contains x) :=
        contains_found r s x
      have hlater : s.contains x = true → contains as x = false := by
        intro hx
        apply contains_eq_false_of_lt fun t ht =>
          lt_of_toNat_add_two_le (hfar t ht)
        exact UInt64.le_trans (Interval.contains_iff.mp hx).2
          (UInt64.not_lt.mp hge)
      rw [contains_append, hfound,
        ih ha ⟨fun t ht => hb.1 t (by simp [ht]), hbs⟩,
        contains_cons, contains_cons]
      cases hs : s.contains x with
      | false =>
          simp
      | true =>
          rw [hlater hs]
          cases r.contains x <;> simp

theorem pairwise_found (r s : AddressRange) :
    (if (r.meet s).isEmpty then [] else [r.meet s]).Pairwise
      fun t u => t.hi.toNat + 2 ≤ u.lo.toNat := by
  split
  · exact List.Pairwise.nil
  · exact List.pairwise_singleton _ _

theorem far_of_bounds {a b c d : Address} (h : b.toNat + 2 ≤ c.toNat)
    (hab : a ≤ b) (hcd : c ≤ d) : a.toNat + 2 ≤ d.toNat := by
  rw [UInt64.le_iff_toNat_le] at hab hcd
  omega

theorem mem_found {r s common : AddressRange}
    (h : common ∈ if (r.meet s).isEmpty then [] else [r.meet s]) :
    common.lo ≤ common.hi ∧ r.lo ≤ common.lo ∧ s.lo ≤ common.lo ∧
      common.hi ≤ r.hi ∧ common.hi ≤ s.hi := by
  split at h
  · cases h
  · next hfull =>
    have hfull := Interval.isEmpty_eq_false_iff.mp (by simpa using hfull)
    rw [List.mem_singleton.mp h]
    -- The bounds of the meet are words of the meet, hence of both ranges.
    have hlo := Interval.contains_meet r s (r.meet s).lo
    have hhi := Interval.contains_meet r s (r.meet s).hi
    rw [Interval.contains_iff.mpr ⟨UInt64.le_refl _, hfull⟩, eq_comm,
      Bool.and_eq_true, Interval.contains_iff, Interval.contains_iff] at hlo
    rw [Interval.contains_iff.mpr ⟨hfull, UInt64.le_refl _⟩, eq_comm,
      Bool.and_eq_true, Interval.contains_iff, Interval.contains_iff] at hhi
    exact ⟨hfull, hlo.1.1, hlo.2.1, hhi.1.2, hhi.2.2⟩

theorem mem_intersection {a b : List AddressRange} {common : AddressRange}
    (h : common ∈ intersection a b) :
    common.lo ≤ common.hi ∧ (∃ r ∈ a, r.lo ≤ common.lo) ∧
      ∃ s ∈ b, s.lo ≤ common.lo := by
  fun_induction intersection a b with
  | case1 b =>
      cases h
  | case2 r rest =>
      cases h
  | case3 r as s bs meet found hlt ih =>
      rcases List.mem_append.mp h with hfound | hlater
      · rcases mem_found hfound with ⟨hfull, hr, hs, _⟩
        exact ⟨hfull, ⟨r, by simp, hr⟩, s, by simp, hs⟩
      · rcases ih hlater with ⟨hfull, ⟨t, ht, hle⟩, hs⟩
        exact ⟨hfull, ⟨t, by simp [ht], hle⟩, hs⟩
  | case4 r as s bs meet found hge ih =>
      rcases List.mem_append.mp h with hfound | hlater
      · rcases mem_found hfound with ⟨hfull, hr, hs, _⟩
        exact ⟨hfull, ⟨r, by simp, hr⟩, s, by simp, hs⟩
      · rcases ih hlater with ⟨hfull, hr, t, ht, hle⟩
        exact ⟨hfull, hr, t, by simp [ht], hle⟩

theorem pairwise_intersection {a b : List AddressRange} (ha : Canonical a)
    (hb : Canonical b) :
    (intersection a b).Pairwise fun r s => r.hi.toNat + 2 ≤ s.lo.toNat := by
  rw [canonical_iff] at ha hb
  fun_induction intersection a b with
  | case1 b =>
      exact List.Pairwise.nil
  | case2 r rest =>
      exact List.Pairwise.nil
  | case3 r as s bs meet found hlt ih =>
      rcases List.pairwise_cons.mp ha.2 with ⟨hfar, has⟩
      refine List.pairwise_append.mpr ⟨pairwise_found r s, ?_, ?_⟩
      · exact ih ⟨fun t ht => ha.1 t (by simp [ht]), has⟩ hb
      · intro common hcommon later hlater
        have hend := (mem_found hcommon).2.2.2.1
        rcases (mem_intersection hlater).2.1 with ⟨t, ht, hle⟩
        exact far_of_bounds (hfar t ht) hend hle
  | case4 r as s bs meet found hge ih =>
      rcases List.pairwise_cons.mp hb.2 with ⟨hfar, hbs⟩
      refine List.pairwise_append.mpr ⟨pairwise_found r s, ?_, ?_⟩
      · exact ih ha ⟨fun t ht => hb.1 t (by simp [ht]), hbs⟩
      · intro common hcommon later hlater
        have hend := (mem_found hcommon).2.2.2.2
        rcases (mem_intersection hlater).2.2 with ⟨t, ht, hle⟩
        exact far_of_bounds (hfar t ht) hend hle

theorem canonical_intersection {a b : List AddressRange} (ha : Canonical a)
    (hb : Canonical b) : Canonical (intersection a b) := by
  rw [canonical_iff]
  constructor
  · intro common hcommon
    exact (mem_intersection hcommon).1
  · exact pairwise_intersection ha hb

/-! ## Subtracting -/

theorem contains_below (lo bound x : Address) :
    contains (if lo < bound then [⟨lo, bound - 1⟩] else []) x = true ↔
      lo ≤ x ∧ x < bound := by
  split
  · next hlt =>
    have hone : (1 : UInt64) ≤ bound := by grind
    have hpred := UInt64.toNat_sub_of_le _ _ hone
    rw [UInt64.lt_iff_toNat_lt] at hlt
    rw [contains_cons, contains_nil, Bool.or_false, Interval.contains_iff]
    apply and_congr_right
    intro _
    rw [UInt64.le_iff_toNat_le, UInt64.lt_iff_toNat_lt, hpred]
    have htoNat : (1 : UInt64).toNat = 1 := rfl
    omega
  · next hge =>
    rw [contains_nil]
    grind

theorem contains_above {bound hi : Address} (h : bound < hi) (x : Address) :
    (⟨bound + 1, hi⟩ : Interval).contains x = true ↔ bound < x ∧ x ≤ hi := by
  rw [Interval.contains_iff]
  apply and_congr_left
  intro _
  have hbound := hi.toNat_lt
  have htoNat : (1 : UInt64).toNat = 1 := rfl
  rw [UInt64.lt_iff_toNat_lt] at h
  rw [UInt64.le_iff_toNat_le, UInt64.lt_iff_toNat_lt, UInt64.toNat_add]
  omega

theorem contains_cutOut {current : AddressRange} {cuts : List AddressRange}
    (hcuts : Canonical cuts) (x : Address) :
    contains (cutOut current cuts) x =
      (current.contains x && !contains cuts x) := by
  rw [canonical_iff] at hcuts
  rw [Bool.eq_iff_iff, Bool.and_eq_true, Bool.not_eq_true']
  fun_induction cutOut current cuts with
  | case1 current =>
      simp [contains_cons]
  | case2 current cut rest hbelow ih =>
      rcases List.pairwise_cons.mp hcuts.2 with ⟨_, hrest⟩
      rw [ih ⟨fun r hr => hcuts.1 r (by simp [hr]), hrest⟩]
      apply and_congr_right
      intro hx
      have hcut : cut.contains x = false := by
        rw [Interval.contains_iff] at hx
        rw [Interval.contains_eq_false_iff]
        grind
      rw [contains_cons, hcut, Bool.false_or]
  | case3 current cut rest _ habove =>
      rw [contains_cons, contains_nil, Bool.or_false]
      apply (and_iff_left_of_imp _).symm
      intro hx
      apply contains_eq_false_of_lt _ (Interval.contains_iff.mp hx).2
      intro r hr
      exact UInt64.lt_of_lt_of_le habove (lo_le_of_mem hcuts hr)
  | case4 current cut rest hlo hhi before hmore ih =>
      rcases List.pairwise_cons.mp hcuts.2 with ⟨hfar, hrest⟩
      have hcut : cut.lo ≤ cut.hi := hcuts.1 cut (by simp)
      have hafter : x ≤ cut.hi → contains rest x = false :=
        contains_eq_false_of_lt fun r hr => lt_of_toNat_add_two_le (hfar r hr)
      rw [contains_append, Bool.or_eq_true, contains_below,
        ih ⟨fun r hr => hcuts.1 r (by simp [hr]), hrest⟩,
        contains_above hmore, contains_cons, Bool.or_eq_false_iff,
        Interval.contains_eq_false_iff, Interval.contains_iff]
      grind
  | case5 current cut rest hlo hhi before hmore =>
      rcases List.pairwise_cons.mp hcuts.2 with ⟨hfar, hrest⟩
      have hcut : cut.lo ≤ cut.hi := hcuts.1 cut (by simp)
      have hafter : x ≤ cut.hi → contains rest x = false :=
        contains_eq_false_of_lt fun r hr => lt_of_toNat_add_two_le (hfar r hr)
      rw [contains_below, contains_cons, Bool.or_eq_false_iff,
        Interval.contains_eq_false_iff, Interval.contains_iff]
      grind

theorem canonical_difference (a b : List AddressRange) :
    Canonical (difference a b) :=
  canonical_normalize _

theorem contains_difference {a b : List AddressRange} (hb : Canonical b)
    (x : Address) :
    contains (difference a b) x = (contains a x && !contains b x) := by
  unfold difference
  rw [contains_normalize, contains_flatMap]
  induction a with
  | nil =>
      rfl
  | cons r rest ih =>
      rw [List.any_cons, ih, contains_cutOut hb, contains_cons,
        Bool.and_or_distrib_right]

end RangeList
end CudaProfile
