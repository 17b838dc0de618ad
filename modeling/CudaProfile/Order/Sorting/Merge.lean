/-!
# Merging

Two lists in order become one. Of elements of which neither is below the other,
those of the first list come first, whichever end the merge starts from.
-/

namespace CudaProfile
namespace Sorting

variable {α : Type}

def mergeUp (less : α → α → Bool) (xs ys : List α) : List α :=
  xs.merge ys fun x y => !less y x

def mergeDown (less : α → α → Bool) (xs ys : List α) : List α :=
  (ys.reverse.merge xs.reverse fun y x => !less y x).reverse

/-- Merge two lists from the end where the shorter one stands. -/
def merge (less : α → α → Bool) (xs ys : List α) : List α :=
  if xs.length ≤ ys.length then mergeUp less xs ys else mergeDown less xs ys

/-! ## Merging from both ends -/

structure MergeFront (α : Type) where
  items : List α
  fromFirst : Nat
  fromSecond : Nat

def mergeSteps (le : α → α → Bool) : Nat → List α → List α → MergeFront α
  | n + 1, x :: xs, y :: ys =>
      if le x y then
        let front := mergeSteps le n xs (y :: ys)
        ⟨x :: front.items, front.fromFirst + 1, front.fromSecond⟩
      else
        let front := mergeSteps le n (x :: xs) ys
        ⟨y :: front.items, front.fromFirst, front.fromSecond + 1⟩
  | _, _, _ => ⟨[], 0, 0⟩

/-- Merge two lists of about the same length, the lesser half from the front
and the greater half from the back. Where the order contradicts itself, so that
both halves claim an element, the merge from the front decides alone. -/
def mergeBothEnds (less : α → α → Bool) (xs ys : List α) : List α :=
  let half := (xs.length + ys.length) / 2
  let front := mergeSteps (fun x y => !less y x) half xs ys
  let back := mergeSteps (fun y x => !less y x) half ys.reverse xs.reverse
  if front.fromFirst + back.fromSecond ≤ xs.length &&
      front.fromSecond + back.fromFirst ≤ ys.length then
    front.items ++
      (xs.take (xs.length - back.fromSecond)).drop front.fromFirst ++
      (ys.take (ys.length - back.fromFirst)).drop front.fromSecond ++
      back.items.reverse
  else mergeUp less xs ys

/-! ## Merging moves elements and nothing else -/

theorem mergeUp_perm (less : α → α → Bool) (xs ys : List α) :
    (mergeUp less xs ys).Perm (xs ++ ys) :=
  List.merge_perm_append _

theorem mergeDown_perm (less : α → α → Bool) (xs ys : List α) :
    (mergeDown less xs ys).Perm (xs ++ ys) := by
  refine (List.reverse_perm _).trans ((List.merge_perm_append _).trans ?_)
  exact ((List.reverse_perm ys).append (List.reverse_perm xs)).trans
    List.perm_append_comm

theorem merge_perm (less : α → α → Bool) (xs ys : List α) :
    (merge less xs ys).Perm (xs ++ ys) := by
  unfold merge
  split
  · exact mergeUp_perm less xs ys
  · exact mergeDown_perm less xs ys

theorem mergeSteps_perm (le : α → α → Bool) (n : Nat) (xs ys : List α) :
    (mergeSteps le n xs ys).items.Perm
      (xs.take (mergeSteps le n xs ys).fromFirst ++
        ys.take (mergeSteps le n xs ys).fromSecond) := by
  fun_induction mergeSteps le n xs ys with
  | case1 n x xs y ys h front ih =>
      exact ih.cons x
  | case2 n x xs y ys h front ih =>
      exact (ih.cons y).trans List.perm_middle.symm
  | case3 =>
      exact List.Perm.refl _

theorem mergeBothEnds_perm (less : α → α → Bool) (xs ys : List α) :
    (mergeBothEnds less xs ys).Perm (xs ++ ys) := by
  have parts : ∀ (zs : List α) (i j : Nat), i + j ≤ zs.length →
      (zs.take i ++ (zs.take (zs.length - j)).drop i ++
        zs.reverse.take j).Perm zs := by
    intro zs i j h
    have front : zs.take i ++ (zs.take (zs.length - j)).drop i =
        zs.take (zs.length - j) := by
      have := List.take_append_drop i (zs.take (zs.length - j))
      rwa [List.take_take, Nat.min_eq_left (by omega)] at this
    rw [front, List.take_reverse]
    refine ((List.reverse_perm _).append_left _).trans ?_
    rw [List.take_append_drop]
  unfold mergeBothEnds
  simp only
  split
  · next h =>
    simp only [Bool.and_eq_true, decide_eq_true_eq] at h
    have front := mergeSteps_perm (fun x y => !less y x)
      ((xs.length + ys.length) / 2) xs ys
    have back := mergeSteps_perm (fun y x => !less y x)
      ((xs.length + ys.length) / 2) ys.reverse xs.reverse
    have hx := parts xs _ _ h.1
    have hy := parts ys _ _ h.2
    refine List.Perm.trans ?_ (hx.append hy)
    refine List.Perm.trans (((front.append_right _).append_right _).append
      ((List.reverse_perm _).trans back)) ?_
    simp only [List.append_assoc]
    refine List.Perm.append_left _ ?_
    refine (List.perm_append_comm_assoc _ _ _).trans ?_
    refine List.Perm.append_left _ ?_
    refine List.Perm.trans ?_ List.perm_append_comm
    simp only [List.append_assoc]
    exact List.Perm.refl _
  · exact mergeUp_perm less xs ys

end Sorting
end CudaProfile
