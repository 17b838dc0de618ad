import Mathlib.Data.Set.Card
import Mathlib.Order.Interval.Finset.Nat
import CudaProfile.Proofs.AddressSet.Policy
/-!
# Counting addresses

The number of addresses of a set is taken from the numbers of bits set in its
bitmaps, one bitmap after the other. An address that is set in two bitmaps is
counted twice, so the number is right exactly if there is no such address. This
holds of all sets that were partitioned anew, but not of every set that was
received.
-/

namespace CudaProfile

/-! ## Unions of parts -/

section Union

variable {α β : Type} [Finite β] (parts : α → Set β)

theorem ncard_biUnion_cons (first : α) (rest : List α) :
    (⋃ a ∈ first :: rest, parts a).ncard +
        (parts first ∩ ⋃ a ∈ rest, parts a).ncard =
      (parts first).ncard + (⋃ a ∈ rest, parts a).ncard := by
  have hunion : (⋃ a ∈ first :: rest, parts a) =
      parts first ∪ ⋃ a ∈ rest, parts a := by
    simp only [List.mem_cons, Set.iUnion_iUnion_eq_or_left]
  rw [hunion]
  exact Set.ncard_union_add_ncard_inter _ _

theorem ncard_biUnion_le (items : List α) :
    (⋃ a ∈ items, parts a).ncard ≤
      (items.map fun a => (parts a).ncard).sum := by
  induction items with
  | nil =>
      simp
  | cons first rest ih =>
      have hcons := ncard_biUnion_cons parts first rest
      rw [List.map_cons, List.sum_cons]
      omega

/-- Parts have as many values together as one by one exactly if no two of them
have a value in common. -/
theorem ncard_biUnion_eq_sum_iff (items : List α) :
    (⋃ a ∈ items, parts a).ncard =
        (items.map fun a => (parts a).ncard).sum ↔
      items.Pairwise fun a b => Disjoint (parts a) (parts b) := by
  induction items with
  | nil =>
      simp
  | cons first rest ih =>
      have hcons := ncard_biUnion_cons parts first rest
      have hle := ncard_biUnion_le parts rest
      have hapart : (parts first ∩ ⋃ a ∈ rest, parts a).ncard = 0 ↔
          ∀ a ∈ rest, Disjoint (parts first) (parts a) := by
        rw [Set.ncard_eq_zero, ← Set.disjoint_iff_inter_eq_empty,
          Set.disjoint_iUnion₂_right]
      rw [List.map_cons, List.sum_cons, List.pairwise_cons, ← ih, ← hapart]
      omega

end Union

/-! ## Addresses of ranges and bitmaps -/

namespace Interval

def words (i : Interval) : Set UInt64 :=
  {x | i.contains x = true}

theorem size_eq_sub (i : Interval) :
    i.size = i.hi.toNat + 1 - i.lo.toNat := by
  unfold size
  cases hempty : i.isEmpty with
  | true =>
      have hlt := UInt64.lt_iff_toNat_lt.mp (of_decide_eq_true hempty)
      rw [if_pos rfl]
      omega
  | false =>
      have hle := UInt64.le_iff_toNat_le.mp (isEmpty_eq_false_iff.mp hempty)
      rw [if_neg Bool.false_ne_true]
      omega

theorem image_words (i : Interval) :
    UInt64.toNat '' i.words = Finset.Icc i.lo.toNat i.hi.toNat := by
  ext n
  rw [Finset.coe_Icc, Set.mem_Icc]
  constructor
  · rintro ⟨x, hx, rfl⟩
    rcases contains_iff.mp hx with ⟨hlo, hhi⟩
    exact ⟨UInt64.le_iff_toNat_le.mp hlo, UInt64.le_iff_toNat_le.mp hhi⟩
  · rintro ⟨hlo, hhi⟩
    have hn : (UInt64.ofNat n).toNat = n :=
      UInt64.toNat_ofNat_of_lt' (Nat.lt_of_le_of_lt hhi i.hi.toNat_lt)
    refine ⟨UInt64.ofNat n, contains_iff.mpr ⟨?_, ?_⟩, hn⟩
    · rw [UInt64.le_iff_toNat_le, hn]
      exact hlo
    · rw [UInt64.le_iff_toNat_le, hn]
      exact hhi

theorem ncard_words (i : Interval) : i.words.ncard = i.size := by
  have hinjective : Function.Injective UInt64.toNat :=
    fun _ _ => UInt64.toNat_inj.mp
  rw [← Set.ncard_image_of_injective i.words hinjective, image_words,
    Set.ncard_coe_finset, Nat.card_Icc, size_eq_sub]

theorem natCard_word : Nat.card UInt64 = 2 ^ 64 := by
  have hfull : full.words = Set.univ :=
    Set.eq_univ_of_forall full_contains
  rw [← Set.ncard_univ, ← hfull, ncard_words]
  rfl

end Interval

namespace RangeList

theorem biUnion_words (ranges : List AddressRange) :
    (⋃ r ∈ ranges, Interval.words r) = {x | contains ranges x = true} := by
  ext x
  rw [Set.mem_iUnion₂, Set.mem_ofPred_eq, contains, List.any_eq_true]
  exact exists_congr fun r => exists_prop

theorem Canonical.disjoint {ranges : List AddressRange} (h : Canonical ranges) :
    ranges.Pairwise fun r s =>
      Disjoint (Interval.words r) (Interval.words s) := by
  refine (canonical_iff.mp h).2.imp ?_
  intro r s hfar
  refine Set.disjoint_left.mpr fun x hr hs => ?_
  have hlt := lt_of_toNat_add_two_le hfar
  exact UInt64.not_le.mpr hlt
    (UInt64.le_trans (Interval.contains_iff.mp hs).1
      (Interval.contains_iff.mp hr).2)

end RangeList

namespace Bitmap

def addresses (b : Bitmap) : Set Address :=
  {x | b.member x = true}

theorem ncard_addresses (b : Bitmap) : b.addresses.ncard = b.count := by
  have hdisjoint := b.spaced.canonical.disjoint
  have hsum := (ncard_biUnion_eq_sum_iff Interval.words b.ones).mpr hdisjoint
  rw [RangeList.biUnion_words] at hsum
  refine hsum.trans ?_
  simp only [Interval.ncard_words, count, List.sum_eq_foldr, List.foldr_map]

end Bitmap

namespace AddressSet

open RangeList

/-! ## Stored and counted addresses -/

def addresses (s : AddressSet) : Set Address :=
  {x | s.contains x = true}

def stored (s : AddressSet) : Set Address :=
  ⋃ b ∈ s.bitmaps, Bitmap.addresses b

def storedBits (s : AddressSet) : Nat :=
  (s.bitmaps.map Bitmap.count).sum

/-- No address is set in two bitmaps. -/
def SetOnce (s : AddressSet) : Prop :=
  s.bitmaps.Pairwise fun b c => ∀ x, b.member x = true → c.member x = false

section Counting

variable {s : AddressSet}

theorem mem_stored_iff {x : Address} : x ∈ s.stored ↔ s.stores x = true := by
  unfold stored
  rw [Set.mem_iUnion₂, stores, List.any_eq_true]
  exact exists_congr fun b => exists_prop

theorem addresses_eq_stored (h : s.complemented = false) :
    s.addresses = s.stored := by
  ext x
  rw [mem_stored_iff, addresses, Set.mem_ofPred_eq, contains, h,
    Bool.bne_false]

theorem addresses_eq_compl (h : s.complemented = true) :
    s.addresses = s.storedᶜ := by
  ext x
  rw [Set.mem_compl_iff, mem_stored_iff, addresses, Set.mem_ofPred_eq,
    contains, h, Bool.bne_true, Bool.not_eq_true', Bool.not_eq_true]

theorem setOnce_iff_disjoint :
    s.SetOnce ↔ s.bitmaps.Pairwise fun b c =>
      Disjoint b.addresses c.addresses := by
  have hdisjoint : ∀ b c : Bitmap, Disjoint b.addresses c.addresses ↔
      ∀ x, b.member x = true → c.member x = false := by
    intro b c
    rw [Set.disjoint_left]
    exact forall_congr' fun x => imp_congr_right fun _ => Bool.eq_false_iff.symm
  simp only [SetOnce, hdisjoint]

theorem sum_ncard_addresses :
    (s.bitmaps.map fun b => b.addresses.ncard).sum = s.storedBits := by
  simp only [Bitmap.ncard_addresses, storedBits]

theorem ncard_stored_le : s.stored.ncard ≤ s.storedBits := by
  rw [← sum_ncard_addresses]
  exact ncard_biUnion_le Bitmap.addresses s.bitmaps

theorem ncard_stored_eq_iff :
    s.stored.ncard = s.storedBits ↔ s.SetOnce := by
  rw [← sum_ncard_addresses, setOnce_iff_disjoint]
  exact ncard_biUnion_eq_sum_iff Bitmap.addresses s.bitmaps

theorem storedBits_eq_zero (h : s.stored.ncard = 0) : s.storedBits = 0 := by
  rw [← sum_ncard_addresses]
  apply List.sum_eq_zero
  intro n hn
  rcases List.mem_map.mp hn with ⟨b, hb, rfl⟩
  have hsub : b.addresses ⊆ s.stored := Set.subset_biUnion_of_mem hb
  exact Nat.le_zero.mp (h ▸ Set.ncard_le_ncard hsub)

/-- The number of all words but some; that of all words is too large. -/
theorem toNat_missing (n : UInt64) :
    (if n = 0 then Interval.maxWord else Interval.maxWord - (n - 1)).toNat =
      min (2 ^ 64 - n.toNat) Interval.maxWord.toNat := by
  have hmax : Interval.maxWord.toNat = 2 ^ 64 - 1 := rfl
  split
  · next hnone =>
    rw [hnone, UInt64.toNat_zero, hmax]
    omega
  · next hsome =>
    have hpos : 1 ≤ n.toNat :=
      Nat.one_le_iff_ne_zero.mpr fun hzero => hsome (UInt64.toNat_inj.mp hzero)
    have hpred : (n - 1).toNat = n.toNat - 1 :=
      UInt64.toNat_sub_of_le _ _ (UInt64.le_iff_toNat_le.mpr hpos)
    have hle : n - 1 ≤ Interval.maxWord :=
      UInt64.le_iff_toNat_le.mpr (toNat_le_maxWord (n - 1))
    rw [UInt64.toNat_sub_of_le _ _ hle, hpred, hmax]
    omega

theorem toNat_count (h : s.storedBits < 2 ^ 64) :
    s.count.toNat =
      if s.complemented then
        min (2 ^ 64 - s.storedBits) Interval.maxWord.toNat
      else s.storedBits := by
  have hsum : s.bitmaps.foldr (fun b total => b.count + total) 0 =
      s.storedBits := by
    rw [storedBits, List.sum_eq_foldr, List.foldr_map]
  have hstored : (UInt64.ofNat s.storedBits).toNat = s.storedBits :=
    UInt64.toNat_ofNat_of_lt' h
  unfold count
  simp only [hsum]
  cases s.complemented with
  | false =>
      simp only [Bool.not_false, if_true, Bool.false_eq_true, if_false, hstored]
  | true =>
      simp only [Bool.not_true, Bool.false_eq_true, if_false, if_true,
        toNat_missing, hstored]

theorem ncard_addresses :
    s.addresses.ncard =
      if s.complemented then 2 ^ 64 - s.stored.ncard else s.stored.ncard := by
  cases hcomplemented : s.complemented with
  | false =>
      rw [addresses_eq_stored hcomplemented]
      rfl
  | true =>
      have hall := Set.ncard_add_ncard_compl s.stored
      rw [Interval.natCard_word] at hall
      rw [addresses_eq_compl hcomplemented, if_pos rfl]
      omega

theorem toNat_count_eq_iff (h : s.storedBits < 2 ^ 64) :
    s.count.toNat = min s.addresses.ncard Interval.maxWord.toNat ↔
      s.SetOnce := by
  have hle := ncard_stored_le (s := s)
  -- Of a complemented set, one missing address has the same number as none.
  have hzero := storedBits_eq_zero (s := s)
  have hmax : Interval.maxWord.toNat = 2 ^ 64 - 1 := rfl
  rw [toNat_count h, ncard_addresses, ← ncard_stored_eq_iff, hmax]
  split
  · omega
  · omega

theorem Repartitioned.setOnce (h : Repartitioned s) : s.SetOnce := by
  unfold SetOnce
  rw [h.partitioned]
  refine (Partition.pairwise_partition (canonical_storedRanges s)).imp ?_
  intro b c hlt x hb
  rw [Bool.eq_false_iff]
  intro hc
  have hend := (Interval.contains_iff.mp (Bitmap.range_contains hb)).2
  have hbegin := (Interval.contains_iff.mp (Bitmap.range_contains hc)).1
  exact UInt64.not_le.mpr hlt (UInt64.le_trans hbegin hend)

/-- The number of addresses of a set whose bits fit into a word is right exactly
if no address is set in two of its bitmaps, as in every set that was partitioned
anew. Otherwise it is too large or, of a complemented set, too small. -/
theorem count_is_number_of_addresses_iff (s : AddressSet)
    (h : s.storedBits < 2 ^ 64) :
    (s.count.toNat = min s.addresses.ncard Interval.maxWord.toNat ↔
        s.SetOnce) ∧
      (Repartitioned s →
        s.count.toNat = min s.addresses.ncard Interval.maxWord.toNat) ∧
      (s.complemented = false → s.addresses.ncard ≤ s.count.toNat) ∧
      (s.complemented = true → s.count.toNat ≤ s.addresses.ncard) := by
  have hle := ncard_stored_le (s := s)
  refine ⟨toNat_count_eq_iff h,
    fun hpartitioned => (toNat_count_eq_iff h).mpr hpartitioned.setOnce, ?_, ?_⟩
  · intro hplain
    rw [toNat_count h, ncard_addresses, hplain]
    exact hle
  · intro hcomplemented
    rw [toNat_count h, ncard_addresses, hcomplemented]
    exact Nat.le_trans (Nat.min_le_left _ _) (Nat.sub_le_sub_left hle _)

/-- Three addresses are missing, so the number is three less than that of all
addresses. -/
theorem count_is_number_of_addresses_iff_all_but_three :
    let s := together.complement
    s.storedBits < 2 ^ 64 ∧ s.addresses.ncard = 2 ^ 64 - 3 := by
  intro s
  have hbits : s.storedBits = 3 := by
    cbv
  have hcount : s.count = 0xFFFFFFFFFFFFFFFD := by
    cbv
  have hfits : s.storedBits < 2 ^ 64 := by
    rw [hbits]
    decide
  have hexact := (count_is_number_of_addresses_iff s hfits).2.1
    (.complement (.ofAddresses _))
  refine ⟨hfits, ?_⟩
  rw [hcount] at hexact
  have hvalue : (0xFFFFFFFFFFFFFFFD : UInt64).toNat = 2 ^ 64 - 3 := rfl
  have hmax : Interval.maxWord.toNat = 2 ^ 64 - 1 := rfl
  omega

def doubled : AddressSet :=
  let b := Bitmap.ofRanges ⟨8, 8⟩ [⟨8, 8⟩]
  ⟨[b, b], false⟩

/-- The address of the two bitmaps is counted twice. -/
theorem count_exceeds_number_of_addresses :
    ¬∀ s, Obtainable s → s.storedBits < 2 ^ 64 →
      s.count.toNat = min s.addresses.ncard Interval.maxWord.toNat := by
  intro h
  have hread : ofRecords [⟨⟨8, 9⟩, [0x01]⟩, ⟨⟨8, 9⟩, [0x01]⟩] =
      .ok doubled := by
    cbv
  have hbits : doubled.storedBits = 2 := by
    cbv
  have hfits : doubled.storedBits < 2 ^ 64 := by
    rw [hbits]
    decide
  have honce := (toNat_count_eq_iff hfits).mp
    (h doubled (.ofRecords hread) hfits)
  have hfirst : (Bitmap.ofRanges ⟨8, 8⟩ [⟨8, 8⟩]).member 8 = true := by
    cbv
  have hsecond := (List.pairwise_cons.mp honce).1 _ List.mem_cons_self 8 hfirst
  exact Bool.false_ne_true (hsecond.symm.trans hfirst)

end Counting
end AddressSet
end CudaProfile
