import CudaProfile.Order.Sorting.Runs
/-!
# Sorting by partition

A list is split at one of its elements into those below it and the others, each
part is split in turn, and small parts are sorted as blocks. After too many
splits the rest is sorted by runs.
-/

namespace CudaProfile
namespace Sorting

variable {α : Type}

def medianOfThree (less : α → α → Bool) (xs : Array α) (a b c : Nat) : Nat :=
  let below (i j : Nat) : Bool :=
    match xs[i]?, xs[j]? with
    | some x, some y => less x y
    | _, _ => false
  let outside := below a b
  if outside = below a c then if below b c = outside then b else c else a

/-- The place of an element between many: three stretches of a given length
each name one, by the medians of parts of theirs if they are long. -/
def medianOfStretches (less : α → α → Bool) (xs : Array α) (length : Nat)
    (a b c : Nat) : Nat :=
  if length < 8 then medianOfThree less xs a b c
  else
    let part := length / 8
    let within (start : Nat) : Nat :=
      medianOfStretches less xs part start (start + 4 * part)
        (start + 7 * part)
    medianOfThree less xs (within a) (within b) (within c)
termination_by length
decreasing_by omega

def pivotPlace (less : α → α → Bool) (xs : List α) : Nat :=
  let length := xs.length / 8
  medianOfStretches less xs.toArray length 0 (4 * length) (7 * length)

/-- The elements in order, with a limit on the splits one within the other and
a way to sort what is left then. `bound` is the last pivot that no element of
the list is below. Elements equal to it need no further split. -/
def byPartition (less : α → α → Bool) (fallback : List α → List α)
    (limit : Nat) (bound : Option α) (xs : List α) : List α :=
  if xs.length ≤ blockLength then sortBlock less xs
  else
    match limit with
    | 0 => fallback xs
    | limit + 1 =>
        let place := pivotPlace less xs
        match xs.drop place with
        | [] => fallback xs
        | pivot :: after =>
            let before := xs.take place
            let below (x : α) : Bool := less x pivot
            let above (x : α) : Bool := less pivot x
            let lesser := before.filter below ++ after.filter below
            if lesser.isEmpty || bound.any (fun b => !less b pivot) then
              before.filter (fun x => !above x) ++
                pivot :: after.filter (fun x => !above x) ++
                byPartition less fallback limit none
                  (before.filter above ++ after.filter above)
            else
              byPartition less fallback limit bound lesser ++
                byPartition less fallback limit (some pivot)
                  (before.filter (fun x => !below x) ++
                    pivot :: after.filter (fun x => !below x))
termination_by structural limit

/-! ## Partition moves elements and nothing else -/

theorem filter_append_filter_not_perm (p : α → Bool) (xs : List α) :
    (xs.filter p ++ xs.filter fun x => !p x).Perm xs := by
  induction xs with
  | nil =>
      exact List.Perm.refl _
  | cons x rest ih =>
      cases h : p x
      · simp only [List.filter_cons, h, Bool.not_false, if_true,
          Bool.false_eq_true, if_false]
        exact List.perm_middle.trans (ih.cons x)
      · simpa [List.filter_cons, h] using ih.cons x

theorem parts_perm (p : α → Bool) (pivot : α) (before after : List α) :
    (before.filter p ++ after.filter p ++
      (before.filter (fun x => !p x) ++
        pivot :: after.filter fun x => !p x)).Perm
          (before ++ pivot :: after) := by
  have first := filter_append_filter_not_perm p before
  have second := filter_append_filter_not_perm p after
  refine List.Perm.trans ?_ (((first.append second).cons pivot).trans
    List.perm_middle.symm)
  rw [← List.append_assoc]
  refine List.perm_middle.trans (List.Perm.cons pivot ?_)
  simp only [List.append_assoc]
  exact (List.perm_append_comm_assoc _ _ _).append_left _

theorem byPartition_perm (less : α → α → Bool) {fallback : List α → List α}
    (h : Moves fallback) (limit : Nat) (bound : Option α) (xs : List α) :
    (byPartition less fallback limit bound xs).Perm xs := by
  induction limit generalizing bound xs with
  | zero =>
      unfold byPartition
      split
      · exact sortBlock_perm less xs
      · exact h xs
  | succ limit ih =>
      unfold byPartition
      split
      · exact sortBlock_perm less xs
      · simp only
        split
        · exact h xs
        · next pivot after hafter =>
          have whole : xs = xs.take (pivotPlace less xs) ++ pivot :: after := by
            rw [← hafter, List.take_append_drop]
          have less_parts := parts_perm (fun x => less x pivot) pivot
            (xs.take (pivotPlace less xs)) after
          have more_parts := parts_perm (fun x => less pivot x) pivot
            (xs.take (pivotPlace less xs)) after
          rw [← whole] at less_parts more_parts
          split
          · refine List.Perm.trans ?_ more_parts
            exact ((ih _ _).append_left _).trans List.perm_append_comm
          · exact ((ih _ _).append (ih _ _)).trans less_parts

end Sorting
end CudaProfile
