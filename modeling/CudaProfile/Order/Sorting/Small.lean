import CudaProfile.Order.Sorting.Insertion
import CudaProfile.Order.Sorting.Merge
/-!
# Sorting small blocks

A block of up to thirty-two elements is sorted in two halves. Each half begins
with four or eight elements that are sorted by a fixed plan; the others are
inserted into them. The halves are then merged from both ends.
-/

namespace CudaProfile
namespace Sorting

variable {α : Type}

def blockLength : Nat :=
  32

def sortTwo (less : α → α → Bool) (a b : α) : α × α :=
  if less b a then (b, a) else (a, b)

/-- Four elements in order, of which the first two and the last two are already
ordered. One comparison finds the least element and one the greatest; a last
one orders the other two. -/
def sortPairs (less : α → α → Bool) (a b c d : α) : List α :=
  let (least, left, right, greatest) :=
    match less c a, less d b with
    | false, false => (a, b, c, d)
    | false, true => (a, c, d, b)
    | true, false => (c, a, b, d)
    | true, true => (c, a, d, b)
  let (left, right) := sortTwo less left right
  [least, left, right, greatest]

def sortFour (less : α → α → Bool) (a b c d : α) : List α :=
  let (a, b) := sortTwo less a b
  let (c, d) := sortTwo less c d
  sortPairs less a b c d

def firstFour (less : α → α → Bool) : List α → List α × List α
  | a :: b :: c :: d :: rest => (sortFour less a b c d, rest)
  | xs => ([], xs)

def firstEight (less : α → α → Bool) (xs : List α) : List α × List α :=
  let (front, rest) := firstFour less xs
  let (back, rest) := firstFour less rest
  (mergeBothEnds less front back, rest)

def firstOfHalf (less : α → α → Bool) (length : Nat) (xs : List α) :
    List α × List α :=
  if length ≥ 16 then firstEight less xs
  else if length ≥ 8 then firstFour less xs
  else ([], xs)

def sortHalf (less : α → α → Bool) (length : Nat) (xs : List α) : List α :=
  let (sorted, rest) := firstOfHalf less length xs
  insertAll less sorted rest

def sortBlock (less : α → α → Bool) (xs : List α) : List α :=
  let half := xs.length / 2
  mergeBothEnds less (sortHalf less xs.length (xs.take half))
    (sortHalf less xs.length (xs.drop half))

/-! ## Sorting a block moves elements and nothing else -/

theorem sortTwo_perm (less : α → α → Bool) (a b : α) :
    [(sortTwo less a b).1, (sortTwo less a b).2].Perm [a, b] := by
  unfold sortTwo
  split
  · exact List.Perm.swap a b []
  · exact List.Perm.refl _

theorem sortPairs_perm (less : α → α → Bool) (a b c d : α) :
    (sortPairs less a b c d).Perm [a, b, c, d] := by
  have middle : ∀ w x y z : α,
      [w, (sortTwo less x y).1, (sortTwo less x y).2, z].Perm [w, x, y, z] :=
    fun w x y z => ((sortTwo_perm less x y).append_right [z]).cons w
  have pair : ∀ w x y : α, [w, x, y].Perm [x, y, w] :=
    fun w x y => (List.Perm.swap x w [y]).trans ((List.Perm.swap y w []).cons x)
  have last : [a, c, d, b].Perm [a, b, c, d] :=
    (pair b c d).symm.cons a
  unfold sortPairs
  cases less c a <;> cases less d b
  · exact middle a b c d
  · exact (middle a c d b).trans last
  · exact (middle c a b d).trans
      ((pair c a b).append_right [d])
  · exact (middle c a d b).trans ((List.Perm.swap a c [d, b]).trans last)

theorem sortFour_perm (less : α → α → Bool) (a b c d : α) :
    (sortFour less a b c d).Perm [a, b, c, d] :=
  (sortPairs_perm less _ _ _ _).trans
    ((sortTwo_perm less a b).append (sortTwo_perm less c d))

theorem firstFour_perm (less : α → α → Bool) (xs : List α) :
    ((firstFour less xs).1 ++ (firstFour less xs).2).Perm xs := by
  unfold firstFour
  split
  · exact (sortFour_perm less _ _ _ _).append_right _
  · exact List.Perm.refl _

theorem firstEight_perm (less : α → α → Bool) (xs : List α) :
    ((firstEight less xs).1 ++ (firstEight less xs).2).Perm xs := by
  have front := firstFour_perm less xs
  have back := firstFour_perm less (firstFour less xs).2
  refine ((mergeBothEnds_perm less _ _).append_right _).trans ?_
  rw [List.append_assoc]
  exact (back.append_left _).trans front

theorem firstOfHalf_perm (less : α → α → Bool) (length : Nat) (xs : List α) :
    ((firstOfHalf less length xs).1 ++
      (firstOfHalf less length xs).2).Perm xs := by
  unfold firstOfHalf
  split
  · exact firstEight_perm less xs
  · split
    · exact firstFour_perm less xs
    · exact List.Perm.refl _

theorem sortHalf_perm (less : α → α → Bool) (length : Nat) (xs : List α) :
    (sortHalf less length xs).Perm xs :=
  (insertAll_perm less _ _).trans (firstOfHalf_perm less length xs)

theorem sortBlock_perm (less : α → α → Bool) (xs : List α) :
    (sortBlock less xs).Perm xs := by
  refine (mergeBothEnds_perm less _ _).trans ?_
  refine ((sortHalf_perm less _ _).append (sortHalf_perm less _ _)).trans ?_
  rw [List.take_append_drop]

end Sorting
end CudaProfile
