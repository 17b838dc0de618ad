import CudaProfile.Order.Sorting.Quick
/-!
# Stable sorting

Elements of which neither is below the other stay in their order. A short list
is sorted by insertion, a longer one by runs. For an order that does not
contradict itself the way makes no difference; where being equal does not carry
over from one pair to the next, it decides which of several possible results
comes out.
-/

namespace CudaProfile

/-- The elements from least to greatest. Stretches that are not in order become
runs in order at once in a list of two blocks and by partition in longer
lists. -/
def sortBy {α : Type} (less : α → α → Bool) (xs : List α) : List α :=
  let byBlocks := Sorting.byRuns less true (Sorting.sortBlock less)
  if xs.length ≤ 20 then Sorting.byInsertion less xs
  else if xs.length ≤ 2 * Sorting.blockLength then byBlocks xs
  else
    Sorting.byRuns less false
      (fun part =>
        Sorting.byPartition less byBlocks (2 * part.length.log2) none part)
      xs

theorem sortBy_perm {α : Type} (less : α → α → Bool) (xs : List α) :
    (sortBy less xs).Perm xs := by
  have blocks : Sorting.Moves
      (Sorting.byRuns less true (Sorting.sortBlock less)) :=
    Sorting.byRuns_perm less true (Sorting.sortBlock_perm less)
  unfold sortBy
  simp only
  split
  · exact Sorting.byInsertion_perm less xs
  · split
    · exact blocks xs
    · exact Sorting.byRuns_perm less false
        (fun part => Sorting.byPartition_perm less blocks _ none part) xs

end CudaProfile
