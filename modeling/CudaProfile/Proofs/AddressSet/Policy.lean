import CudaProfile.Message
import CudaProfile.Proofs.AddressSet.Layout
/-!
# The policy of partitioning

The parts of a list may be worked off in any order, as a queue of lists does,
before the bitmaps are sorted. The bitmaps depend on the addresses only, not on
how a set came to hold them, and so does what is sent of a set.
-/

namespace CudaProfile

open RangeList

namespace Partition

/-! ## A queue of lists

The lists that are still to be cut may as well wait in a queue, from whose front
each is taken in turn. Bitmaps are then made in another order, and sorting them
by their first addresses restores it.
-/

/-- The bitmaps made after working off a queue, in at most a number of steps:
each takes a list from the front and puts its two parts behind the others, or
makes a bitmap of it. -/
def workOff : Nat → List (List AddressRange) → List Bitmap →
    Option (List Bitmap)
  | _, [], made => some made
  | 0, _ :: _, _ => none
  | steps + 1, ranges :: queue, made =>
      match cut? ranges with
      | some (left, right) => workOff steps (queue ++ [left, right]) made
      | none => workOff steps queue (made ++ spanning ranges)

inductive Queued (ranges : List AddressRange) : List AddressRange → Prop where
  | first : Queued ranges ranges
  | left {part left right : List AddressRange} (h : Queued ranges part)
      (hcut : cut? part = some (left, right)) : Queued ranges left
  | right {part left right : List AddressRange} (h : Queued ranges part)
      (hcut : cut? part = some (left, right)) : Queued ranges right

theorem Queued.canonical {ranges part : List AddressRange}
    (h : Queued ranges part) (hranges : Canonical ranges) : Canonical part := by
  induction h with
  | first =>
      exact hranges
  | left _ hcut ih =>
      exact (cut_of_cut? ih hcut).canonical_left
  | right _ hcut ih =>
      exact (cut_of_cut? ih hcut).canonical_right

theorem isChain_gap {ranges : List AddressRange} (h : Canonical ranges) :
    ranges.IsChain fun a b =>
      a.hi.toNat + 1 + (gap a b).toNat = b.lo.toNat := by
  apply List.Pairwise.isChain
  refine (canonical_iff.mp h).2.imp ?_
  intro a b hfar
  rw [toNat_gap hfar]
  omega

def workload (queue : List (List AddressRange)) : Nat :=
  (queue.map fun ranges => max 1 (2 * pieces ranges - 1)).sum

theorem workload_cons (ranges : List AddressRange)
    (queue : List (List AddressRange)) :
    workload (ranges :: queue) =
      max 1 (2 * pieces ranges - 1) + workload queue :=
  List.sum_cons

theorem workload_parts (queue : List (List AddressRange))
    (left right : List AddressRange) :
    workload (queue ++ [left, right]) =
      workload queue + (max 1 (2 * pieces left - 1) +
        max 1 (2 * pieces right - 1)) := by
  simp [workload]

theorem workOff_eq_some {steps : Nat} {queue : List (List AddressRange)}
    (h : ∀ ranges ∈ queue, Canonical ranges) (hsteps : workload queue ≤ steps)
    (made : List Bitmap) :
    ∃ bitmaps, workOff steps queue made = some bitmaps ∧
      bitmaps.Perm (made ++ queue.flatMap partition) := by
  induction steps generalizing queue made with
  | zero =>
      cases queue with
      | nil =>
          exact ⟨made, rfl, by simp⟩
      | cons ranges queue =>
          rw [workload_cons] at hsteps
          omega
  | succ steps ih =>
      cases queue with
      | nil =>
          exact ⟨made, rfl, by simp⟩
      | cons ranges queue =>
          rcases List.forall_mem_cons.mp h with ⟨hranges, hqueue⟩
          rw [workload_cons] at hsteps
          rw [workOff, List.flatMap_cons, partition_eq]
          cases hparts : cut? ranges with
          | none =>
              rcases ih hqueue (by omega) (made ++ spanning ranges) with
                ⟨bitmaps, hbitmaps, hperm⟩
              refine ⟨bitmaps, hbitmaps, ?_⟩
              rw [List.append_assoc] at hperm
              exact hperm
          | some parts =>
              rcases parts with ⟨left, right⟩
              have hcut := cut_of_cut? hranges hparts
              have hleft := hcut.pieces_left
              have hright := hcut.pieces_right
              have hle := hcut.pieces_le
              have hnext : ∀ part ∈ queue ++ [left, right], Canonical part := by
                intro part hpart
                rcases List.mem_append.mp hpart with hold | hnew
                · exact hqueue part hold
                · rcases List.mem_pair.mp hnew with rfl | rfl
                  · exact hcut.canonical_left
                  · exact hcut.canonical_right
              rcases ih hnext (by rw [workload_parts]; omega) made with
                ⟨bitmaps, hbitmaps, hperm⟩
              refine ⟨bitmaps, hbitmaps, hperm.trans ?_⟩
              apply List.Perm.append_left
              rw [List.flatMap_append]
              simp only [List.flatMap_cons, List.flatMap_nil, List.append_nil]
              exact List.perm_append_comm

def beginsBefore (b c : Bitmap) : Bool :=
  b.range.lo ≤ c.range.lo

theorem pairwise_begins {ranges : List AddressRange} (h : Canonical ranges) :
    (partition ranges).Pairwise fun b c => b.range.lo < c.range.lo := by
  refine (pairwise_partition h).imp_of_mem ?_
  intro b c hb _ hlt
  have hle := Interval.isEmpty_eq_false_iff.mp (legal_of_mem_partition h b hb).1
  exact UInt64.lt_of_le_of_lt hle hlt

/-- Sorting undoes the order in which the queue was worked off, since no two
bitmaps of a list begin at the same address. -/
theorem sorted_eq_partition {ranges : List AddressRange} (h : Canonical ranges)
    {bitmaps : List Bitmap} (hperm : bitmaps.Perm (partition ranges)) :
    bitmaps.mergeSort beginsBefore = partition ranges := by
  have hbegins := pairwise_begins h
  have hdistinct : ((partition ranges).map fun b => b.range.lo).Nodup :=
    List.pairwise_map.mpr (hbegins.imp UInt64.ne_of_lt)
  have hsorted : (bitmaps.mergeSort beginsBefore).Pairwise fun b c =>
      beginsBefore b c = true := by
    apply List.pairwise_mergeSort
    · intro b c d hbc hcd
      exact decide_eq_true (UInt64.le_trans (of_decide_eq_true hbc)
        (of_decide_eq_true hcd))
    · intro b c
      rw [Bool.or_eq_true]
      exact (UInt64.le_total _ _).imp decide_eq_true decide_eq_true
  have hordered : (partition ranges).Pairwise fun b c =>
      beginsBefore b c = true := by
    refine hbegins.imp ?_
    intro b c hlt
    exact decide_eq_true (UInt64.le_of_lt hlt)
  refine List.Perm.eq_of_pairwise ?_ hsorted hordered
    ((List.mergeSort_perm _ _).trans hperm)
  intro b c hb hc hbc hcb
  exact List.inj_on_of_nodup_map hdistinct
    (hperm.mem_iff.mp (List.mem_mergeSort.mp hb)) hc
    (UInt64.le_antisymm (of_decide_eq_true hbc) (of_decide_eq_true hcb))

/-- The queue of a canonical list comes to its end, and its bitmaps in order are
those that the list is partitioned into. -/
theorem exists_workOff {ranges : List AddressRange} (h : Canonical ranges) :
    ∃ bitmaps, workOff (2 * pieces ranges + 1) [ranges] [] = some bitmaps ∧
      bitmaps.mergeSort beginsBefore = partition ranges := by
  have hload : workload [ranges] ≤ 2 * pieces ranges + 1 := by
    rw [workload_cons]
    change max 1 (2 * pieces ranges - 1) + 0 ≤ _
    omega
  rcases workOff_eq_some (by simpa using h) hload [] with
    ⟨bitmaps, hbitmaps, hperm⟩
  refine ⟨bitmaps, hbitmaps, sorted_eq_partition h ?_⟩
  simpa using hperm

/-! ## The layout -/

/-- How the bitmaps of a list are laid out. They follow one another, each is
tight, and together they have the addresses of the list. If the list is not too
wide, more addresses are missing between two neighbours than a new bitmap costs
bits, and the bitmaps are those of the scan. -/
structure LaidOut (ranges : List AddressRange) (bitmaps : List Bitmap) :
    Prop where
  ascending : bitmaps.Pairwise fun b c => b.range.hi < c.range.lo
  tight : ∀ b ∈ bitmaps, Tight b
  member_iff : ∀ x, (∃ b ∈ bitmaps, b.member x = true) ↔
    ∃ r ∈ ranges, r.contains x = true
  separated : Narrow ranges → ∀ before b c later,
    bitmaps = before ++ b :: c :: later →
      threshold.toNat < c.range.lo.toNat - b.range.hi.toNat - 1 ∧
        ∀ x, b.range.hi < x → x < c.range.lo →
          ∀ r ∈ ranges, r.contains x = false
  eq_scan : Narrow ranges → bitmaps = scan ranges

theorem contains_between {ranges : List AddressRange} (h : Canonical ranges)
    {before later : List Bitmap} {b c : Bitmap}
    (hsplit : partition ranges = before ++ b :: c :: later) {x : Address}
    (hb : b.range.hi < x) (hc : x < c.range.lo) :
    contains ranges x = false := by
  have hlegal : ∀ d ∈ before ++ b :: c :: later, d.range.lo ≤ d.range.hi := by
    rw [← hsplit]
    intro d hd
    exact Interval.isEmpty_eq_false_iff.mp (legal_of_mem_partition h d hd).1
  have hascending := pairwise_partition h
  rw [hsplit] at hascending
  rcases List.pairwise_append.mp hascending with ⟨_, hbefore, hapart⟩
  have hlater := (List.pairwise_cons.mp (List.pairwise_cons.mp hbefore).2).1
  rw [Bool.eq_false_iff, ← member_partition h, Ne, List.any_eq_true]
  rintro ⟨d, hd, hmember⟩
  rcases Interval.contains_iff.mp (Bitmap.range_contains hmember) with
    ⟨hlo, hhi⟩
  rw [hsplit] at hd
  rcases List.mem_append.mp hd with hd | hd
  · have hle := hlegal b (by simp)
    have hlt := hapart d hd b List.mem_cons_self
    grind
  · rcases List.mem_cons.mp hd with rfl | hd
    · exact UInt64.not_lt.mpr hhi hb
    · rcases List.mem_cons.mp hd with rfl | hd
      · exact UInt64.not_lt.mpr hlo hc
      · have hle := hlegal c (by simp)
        have hlt := hlater d hd
        grind

theorem laidOut_partition {ranges : List AddressRange} (h : Canonical ranges) :
    LaidOut ranges (partition ranges) := by
  constructor
  · exact pairwise_partition h
  · exact tight_of_mem_partition h
  · intro x
    rw [← List.any_eq_true, member_partition h, contains, List.any_eq_true]
  · intro hnarrow before b c later hsplit
    have hfar := pairwise_partition_of_narrow h hnarrow
    rw [hsplit, List.pairwise_append] at hfar
    have hneighbours := (List.pairwise_cons.mp hfar.2.1).1 c List.mem_cons_self
    refine ⟨by omega, ?_⟩
    intro x hb hc r hr
    have hnone := contains_between h hsplit hb hc
    rw [contains, List.any_eq_false] at hnone
    exact Bool.eq_false_iff.mpr (hnone r hr)
  · exact partition_eq_scan h

end Partition
namespace AddressSet

/-! ## Sets that were partitioned anew -/

/-- The sets that come out of operations which partition anew, whatever bitmaps
the sets have that go in, and their complements. -/
inductive Repartitioned : AddressSet → Prop where
  | empty : Repartitioned ∅
  | ofRanges {ranges : List AddressRange} {s : AddressSet}
      (h : AddressSet.ofRanges ranges = .ok s) : Repartitioned s
  | ofAddresses (addresses : List Address) :
      Repartitioned (AddressSet.ofAddresses addresses)
  | insert (s : AddressSet) (address : Address) :
      Repartitioned (s.insert address)
  | insertRanges {s : AddressSet} {ranges : List AddressRange}
      (h : (s.insertRanges ranges).refusal = none) :
      Repartitioned (s.insertRanges ranges).state
  | removeRange {s : AddressSet} {range : AddressRange}
      (h : (s.removeRange range).refusal = none) :
      Repartitioned (s.removeRange range).state
  | union (s t : AddressSet) : Repartitioned (s.union t)
  | intersection (s t : AddressSet) : Repartitioned (s.intersection t)
  | difference (s t : AddressSet) : Repartitioned (s.difference t)
  | symmetricDifference (s t : AddressSet) :
      Repartitioned (s.symmetricDifference t)
  | complement {s : AddressSet} (h : Repartitioned s) :
      Repartitioned s.complement

theorem Repartitioned.partitioned {s : AddressSet} (h : Repartitioned s) :
    s.Partitioned := by
  induction h with
  | empty =>
      have hnone : storedRanges ∅ = [] := by
        change RangeList.normalize [] = []
        simp [RangeList.normalize, ascending, coalesce]
      unfold Partitioned
      rw [hnone, Partition.partition]
      rfl
  | ofRanges hmade =>
      exact partitioned_ofRanges hmade
  | ofAddresses addresses =>
      exact partitioned_ofAddresses addresses
  | insert s address =>
      exact partitioned_add s _
  | @insertRanges s ranges hdone =>
      unfold AddressSet.insertRanges at hdone ⊢
      split at hdone
      · cases hdone
      · exact partitioned_add s _
  | @removeRange s range hdone =>
      unfold AddressSet.removeRange at hdone ⊢
      split at hdone
      · cases hdone
      · exact partitioned_remove s _
  | union s t =>
      exact partitioned_union s t
  | intersection s t =>
      exact partitioned_intersection s t
  | difference s t =>
      exact partitioned_intersection s _
  | symmetricDifference s t =>
      exact partitioned_symmetricDifference s t
  | complement _ ih =>
      exact ih

theorem eq_of_same {s t : AddressSet} (hs : s.Partitioned) (ht : t.Partitioned)
    (hstored : s.complemented = t.complemented) (h : s.same t = true) :
    s = t := by
  have hranges : s.storedRanges = t.storedRanges := by
    apply eq_of_contains_eq (canonical_storedRanges s)
      (canonical_storedRanges t)
    intro x
    have hx := (same_iff s t).mp h x
    rw [contains_eq, contains_eq, hstored] at hx
    exact Bool.bne_left_inj.mp hx
  have hbitmaps : s.bitmaps = t.bitmaps := by
    rw [hs, ht, hranges]
  cases s
  cases t
  cases hbitmaps
  cases hstored
  rfl

/-- Partitioning a canonical list comes to its end, also when the lists wait in
a queue, no gap on the way is the result of wrapping, and the bitmaps are laid
out as the policy says. The bitmaps of sets that were partitioned anew are those
of their addresses, so equal ones have the same bitmaps and the same bytes. -/
theorem partitioning_policy :
    (∀ ranges, Canonical ranges →
      (∃ bitmaps, Partition.workOff (2 * Partition.pieces ranges + 1) [ranges]
          [] = some bitmaps ∧
        bitmaps.mergeSort Partition.beginsBefore =
          Partition.partition ranges) ∧
      (∀ part, Partition.Queued ranges part → part.IsChain fun a b =>
        a.hi.toNat + 1 + (Partition.gap a b).toNat = b.lo.toNat) ∧
      Partition.LaidOut ranges (Partition.partition ranges)) ∧
    (∀ s, Repartitioned s → Canonical s.storedRanges ∧
      s.bitmaps = Partition.partition s.storedRanges) ∧
    ∀ s t, Repartitioned s → Repartitioned t → s.complemented = false →
      t.complemented = false → s.same t = true →
        s.bitmaps = t.bitmaps ∧ s.toRecords = t.toRecords ∧
          Wire.encodeSet s = Wire.encodeSet t := by
  refine ⟨?_, ?_, ?_⟩
  · intro ranges h
    refine ⟨Partition.exists_workOff h, ?_, Partition.laidOut_partition h⟩
    intro part hpart
    exact Partition.isChain_gap (hpart.canonical h)
  · intro s h
    exact ⟨canonical_storedRanges s, h.partitioned⟩
  · intro s t hs ht hplain hplain' hsame
    have heq := eq_of_same hs.partitioned ht.partitioned
      (hplain.trans hplain'.symm) hsame
    rw [heq]
    exact ⟨rfl, rfl, rfl⟩

def together : AddressSet :=
  ofAddresses [100, 237, 375]

def oneByOne : AddressSet :=
  (((∅ : AddressSet).insert 375).insert 100).insert 237

theorem partitioning_policy_at_threshold :
    oneByOne.same together = true ∧
      oneByOne.bitmaps = together.bitmaps ∧
      Wire.encodeSet oneByOne = Wire.encodeSet together ∧
      together.bitmaps.map Bitmap.range = [⟨100, 237⟩, ⟨375, 375⟩] ∧
      Partition.LaidOut together.storedRanges together.bitmaps := by
  have hsame : oneByOne.same together = true := by
    cbv
  rcases partitioning_policy with ⟨hlaid, hpartitioned, hequal⟩
  have htogether := hpartitioned together (.ofAddresses _)
  rcases hequal oneByOne together (.insert _ _) (.ofAddresses _) rfl rfl hsame
    with ⟨hbitmaps, _, hbytes⟩
  refine ⟨hsame, hbitmaps, hbytes, by cbv, ?_⟩
  rw [htogether.2]
  exact (hlaid _ htogether.1).2.2

end AddressSet
end CudaProfile
