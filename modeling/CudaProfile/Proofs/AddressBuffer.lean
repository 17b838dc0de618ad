import Mathlib
import CudaProfile.Component.AddressAggregator
import CudaProfile.Proofs.Order.OrderedMap
/-!
# Counting observations

A buffer has an entry for every address that was observed, and counts up to the
size of a word.
-/

namespace CudaProfile
namespace AddressBuffer

open Std

theorem count_add (b : AddressBuffer) (address x : Address) (number : UInt64) :
    (b.add address number).count x =
      if x = address then b.count x + number else b.count x := by
  unfold count add
  rw [OrderedMap.get?_insert]
  by_cases h : x = address
  · rw [if_pos h, if_pos h, h]
    rfl
  · rw [if_neg h, if_neg h]

theorem count_observeAll (b : AddressBuffer) (addresses : List Address)
    (x : Address) :
    (b.observeAll addresses).count x =
      b.count x + UInt64.ofNat (addresses.count x) := by
  induction addresses generalizing b with
  | nil =>
      exact (UInt64.add_zero _).symm
  | cons address rest ih =>
      change ((b.observe address).observeAll rest).count x = _
      rw [ih, observe, count_add, List.count_cons]
      by_cases h : x = address
      · rw [if_pos h, if_pos (by simp [h]), UInt64.ofNat_add, UInt64.add_assoc,
          UInt64.add_comm 1]
        rfl
      · rw [if_neg h, if_neg (by simp [Ne.symm h]), Nat.add_zero]

theorem observeAll_eq_self_iff {b : AddressBuffer} {addresses : List Address}
    (h : ∀ x, (b.count x).toNat + addresses.count x < 2 ^ 64) :
    b.observeAll addresses = b ↔ addresses = [] := by
  constructor
  · intro hsame
    rw [List.eq_nil_iff_forall_not_mem]
    intro x
    have hcount := congrArg (fun b => (AddressBuffer.count b x).toNat) hsame
    have hword : addresses.count x < 2 ^ 64 := by
      have hx := h x
      omega
    simp only [count_observeAll, UInt64.toNat_add, UInt64.toNat_ofNat',
      Nat.mod_eq_of_lt hword, Nat.mod_eq_of_lt (h x)] at hcount
    rw [← List.count_eq_zero]
    omega
  · rintro rfl
    rfl

theorem mem_keys_observeAll {b : AddressBuffer} {addresses : List Address}
    {x : Address} :
    x ∈ (b.observeAll addresses).counts.keys ↔
      x ∈ addresses ∨ x ∈ b.counts.keys := by
  induction addresses generalizing b with
  | nil =>
      exact (or_iff_right List.not_mem_nil).symm
  | cons address rest ih =>
      change x ∈ ((b.observe address).observeAll rest).counts.keys ↔ _
      rw [ih, List.mem_cons, or_comm (a := x = address), or_assoc]
      apply or_congr_right
      rw [OrderedMap.mem_keys_iff, OrderedMap.mem_keys_iff]
      unfold observe add
      rw [OrderedMap.get?_insert]
      by_cases h : x = address
      · simp [h]
      · simp [h]

/-! ## Merging -/

theorem count_addAll (b : AddressBuffer) {entries : List (Address × UInt64)}
    (h : entries.Pairwise fun e f => compare e.1 f.1 = .lt) (x : Address) :
    (entries.foldl (fun b e => b.add e.1 e.2) b).count x =
      b.count x + (OrderedMap.find? x entries).getD 0 := by
  induction entries generalizing b with
  | nil =>
      exact (UInt64.add_zero _).symm
  | cons head rest ih =>
      rcases List.pairwise_cons.mp h with ⟨hhead, hrest⟩
      rw [List.foldl_cons, ih _ hrest, count_add, OrderedMap.find?_cons]
      by_cases hx : x = head.1
      · -- No later entry is of the same address.
        have hnone : OrderedMap.find? x rest = none := by
          rw [Option.eq_none_iff_forall_ne_some]
          intro number hnumber
          have hlt := hhead _ ((OrderedMap.find?_eq_some_iff hrest).mp hnumber)
          rw [Std.compare_eq_iff_eq.mpr hx.symm] at hlt
          cases hlt
        rw [if_pos hx, if_pos hx, hnone]
        exact UInt64.add_zero _
      · rw [if_neg hx, if_neg hx]

theorem count_merge (b c : AddressBuffer) (x : Address) :
    (b.merge c).count x = b.count x + c.count x :=
  count_addAll b c.counts.ascending x

def countIn (buffers : List AddressBuffer) (x : Address) : Nat :=
  (buffers.map fun b => (b.count x).toNat).sum

theorem countIn_cons (b : AddressBuffer) (rest : List AddressBuffer)
    (x : Address) :
    countIn (b :: rest) x = (b.count x).toNat + countIn rest x := by
  unfold countIn
  rw [List.map_cons, List.sum_cons]

theorem countIn_perm {buffers others : List AddressBuffer}
    (h : buffers.Perm others) (x : Address) :
    countIn buffers x = countIn others x :=
  (h.map _).sum_nat

theorem toNat_count_merge {b c : AddressBuffer} {x : Address}
    (h : (b.count x).toNat + (c.count x).toNat < 2 ^ 64) :
    ((b.merge c).count x).toNat = (b.count x).toNat + (c.count x).toNat := by
  rw [count_merge, UInt64.toNat_add]
  exact Nat.mod_eq_of_lt h

theorem toNat_count_mergeAll {b : AddressBuffer} {buffers : List AddressBuffer}
    {x : Address} (h : (b.count x).toNat + countIn buffers x < 2 ^ 64) :
    ((buffers.foldl merge b).count x).toNat =
      (b.count x).toNat + countIn buffers x := by
  induction buffers generalizing b with
  | nil =>
      rfl
  | cons c rest ih =>
      rw [countIn_cons] at h ⊢
      have hmerged := toNat_count_merge (b := b) (c := c) (x := x) (by omega)
      rw [List.foldl_cons, ih (by omega), hmerged, Nat.add_assoc]

end AddressBuffer
end CudaProfile
