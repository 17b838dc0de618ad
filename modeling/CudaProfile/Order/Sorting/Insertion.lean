/-!
# Insertion sort

Elements are inserted one after the other into a list that is already in order.
Each moves past the elements it is below, starting from the greatest, so that
elements of which neither is below the other keep their places.
-/

namespace CudaProfile
namespace Sorting

/-- Insert an element into a list that runs from greatest to least, moving it
past the elements it is strictly below. -/
def insertDescending {α : Type} (less : α → α → Bool) (x : α) :
    List α → List α
  | [] => [x]
  | y :: rest =>
      if less x y then y :: insertDescending less x rest else x :: y :: rest

def insertAll {α : Type} (less : α → α → Bool) (sorted xs : List α) : List α :=
  (xs.foldl (fun sorted x => insertDescending less x sorted)
    sorted.reverse).reverse

def byInsertion {α : Type} (less : α → α → Bool) (xs : List α) : List α :=
  insertAll less [] xs

/-! ## Insertion moves elements and nothing else -/

theorem insertDescending_perm {α : Type} (less : α → α → Bool) (x : α)
    (xs : List α) :
    (insertDescending less x xs).Perm (x :: xs) := by
  induction xs with
  | nil =>
      exact List.Perm.refl _
  | cons y rest ih =>
      unfold insertDescending
      split
      · exact (ih.cons y).trans (List.Perm.swap x y rest)
      · exact List.Perm.refl _

theorem insertAll_perm {α : Type} (less : α → α → Bool) (sorted xs : List α) :
    (insertAll less sorted xs).Perm (sorted ++ xs) := by
  have fold : ∀ (ys zs : List α),
      (ys.foldl (fun sorted x => insertDescending less x sorted) zs).Perm
        (ys ++ zs) := by
    intro ys
    induction ys with
    | nil =>
        intro zs
        exact List.Perm.refl _
    | cons y rest ih =>
        intro zs
        refine (ih _).trans ?_
        refine ((insertDescending_perm less y zs).append_left rest).trans ?_
        exact List.perm_middle
  refine (List.reverse_perm _).trans ((fold xs sorted.reverse).trans ?_)
  exact List.perm_append_comm.trans
    ((List.reverse_perm sorted).append_right xs)

theorem byInsertion_perm {α : Type} (less : α → α → Bool) (xs : List α) :
    (byInsertion less xs).Perm xs :=
  insertAll_perm less [] xs

end Sorting
end CudaProfile
