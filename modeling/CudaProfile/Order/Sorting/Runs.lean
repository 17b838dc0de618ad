import CudaProfile.Order.Sorting.Small
/-!
# Sorting by runs

A list is cut into runs: stretches that are long enough and already in order,
or stretches that still have to be sorted. Neighbouring runs are joined in an
order that keeps the depths of the joins close to those of a balanced tree over
the places of their boundaries. Two runs of which neither is in order are only
put together, so that they can be sorted at once.
-/

namespace CudaProfile
namespace Sorting

variable {α : Type}

structure Run (α : Type) where
  items : List α
  sorted : Bool

/-- The number of elements that a stretch in order needs to become a run, for a
list of a given length: half of it, at most sixty-four and later about the
square root. -/
def leastRun (length : Nat) : Nat :=
  if length ≤ 4096 then min (length - length / 2) 64
  else
    let shift := (1 + length.log2) / 2
    (Nat.pow 2 shift + length / Nat.pow 2 shift) / 2

def chainLength (related : α → α → Bool) : List α → Nat
  | [] => 0
  | [_] => 1
  | x :: y :: rest =>
      if related x y then chainLength related (y :: rest) + 1 else 1

def presorted? (less : α → α → Bool) (least : Nat) (xs : List α) :
    Option (List α) :=
  match xs with
  | x :: y :: _ =>
      let descending := less y x
      let length := chainLength (fun a b => less b a = descending) xs
      if length < least then none
      else if descending then some (xs.take length).reverse
      else some (xs.take length)
  | _ => none

/-- The run at the beginning of a list. When runs are to be in order from the
start, a small block becomes one. -/
def firstRun (less : α → α → Bool) (eager : Bool) (least : Nat)
    (xs : List α) : Run α :=
  match presorted? less least xs with
  | some run => ⟨run, true⟩
  | none =>
      if eager then ⟨sortBlock less (xs.take blockLength), true⟩
      else ⟨xs.take least, false⟩

def runs (less : α → α → Bool) (eager : Bool) (least : Nat) :
    List α → List (Run α)
  | [] => []
  | x :: rest =>
      let run := firstRun less eager least (x :: rest)
      run :: runs less eager least (rest.drop (run.items.length - 1))
termination_by xs => xs.length

/-! ## Joining runs -/

def Run.inOrder (sort : List α → List α) (run : Run α) : List α :=
  if run.sorted then run.items else sort run.items

def Run.join (less : α → α → Bool) (sort : List α → List α)
    (left right : Run α) : Run α :=
  if left.sorted || right.sorted then
    ⟨merge less (left.inOrder sort) (right.inOrder sort), true⟩
  else ⟨left.items ++ right.items, false⟩

/-- The depth of the boundary between two neighbouring runs in a balanced tree
over a list: the number of leading bits that the middles of the two runs, as
fractions of the list, have in common. -/
def boundaryDepth (length start boundary stop : Nat) : Nat :=
  let scale := (0x4000000000000000 + length - 1) / length
  let differing := (scale * (start + boundary)) ^^^ (scale * (boundary + stop))
  if differing = 0 then 64 else 63 - differing.log2

/-- Join a run to those before it whose boundaries are at least as deep as a
given one. Runs that wait are kept with the depths of the boundaries after
them, the nearest first. -/
def joinDeeper (less : α → α → Bool) (sort : List α → List α) (depth : Nat)
    (run : Run α) : List (Run α × Nat) → Run α × List (Run α × Nat)
  | [] => (run, [])
  | (left, deep) :: rest =>
      if deep ≥ depth then
        joinDeeper less sort depth (left.join less sort run) rest
      else (run, (left, deep) :: rest)

/-- Join runs that follow each other, where `run` starts at a place in a list
of a given length and others wait before it. -/
def joinRuns (less : α → α → Bool) (sort : List α → List α) (length : Nat)
    (start : Nat) (run : Run α) (waiting : List (Run α × Nat)) :
    List (Run α) → Run α
  | [] => (joinDeeper less sort 0 run waiting).1
  | next :: rest =>
      let boundary := start + run.items.length
      let depth := boundaryDepth length start boundary
        (boundary + next.items.length)
      let (joined, waiting) := joinDeeper less sort depth run waiting
      joinRuns less sort length boundary next ((joined, depth) :: waiting) rest

def byRuns (less : α → α → Bool) (eager : Bool) (sort : List α → List α)
    (xs : List α) : List α :=
  match runs less eager (leastRun xs.length) xs with
  | [] => []
  | first :: rest =>
      (joinRuns less sort xs.length 0 first [] rest).inOrder sort

/-! ## Runs hold the elements of the list -/

def Moves (sort : List α → List α) : Prop :=
  ∀ xs, (sort xs).Perm xs

def Begins (items xs : List α) : Prop :=
  ∃ n, 0 < n ∧ items.Perm (xs.take n)

theorem drop_of_perm_take {items rest : List α} {x : α} {n : Nat}
    (pos : 0 < n) (perm : items.Perm ((x :: rest).take n)) :
    rest.drop (items.length - 1) = (x :: rest).drop n := by
  have length := perm.length_eq
  rw [List.length_take, List.length_cons] at length
  obtain ⟨m, rfl⟩ : ∃ m, n = m + 1 := ⟨n - 1, by omega⟩
  rw [List.drop_succ_cons]
  by_cases hm : m ≤ rest.length
  · congr 1
    omega
  · rw [List.drop_eq_nil_of_le (by omega), List.drop_eq_nil_of_le (by omega)]

theorem Begins.append_drop_perm {items rest : List α} {x : α}
    (h : Begins items (x :: rest)) :
    (items ++ rest.drop (items.length - 1)).Perm (x :: rest) := by
  obtain ⟨n, pos, perm⟩ := h
  have whole := List.take_append_drop n (x :: rest)
  rw [drop_of_perm_take pos perm]
  exact (perm.append_right _).trans (by rw [whole])

theorem chainLength_pos (related : α → α → Bool) (x : α) (xs : List α) :
    0 < chainLength related (x :: xs) := by
  cases xs with
  | nil =>
      simp [chainLength]
  | cons y rest =>
      unfold chainLength
      split
      · omega
      · omega

theorem presorted?_begins {less : α → α → Bool} {least : Nat}
    {xs run : List α} (h : presorted? less least xs = some run) :
    Begins run xs := by
  unfold presorted? at h
  split at h
  · next x y rest =>
    refine ⟨_, chainLength_pos (fun a b => less b a = less y x) x (y :: rest),
      ?_⟩
    simp only at h
    split at h
    · cases h
    · split at h
      · cases h
        exact List.reverse_perm _
      · cases h
        exact List.Perm.refl _
  · cases h

theorem firstRun_begins (less : α → α → Bool) (eager : Bool) {least : Nat}
    (h : 0 < least) (xs : List α) :
    Begins (firstRun less eager least xs).items xs := by
  unfold firstRun
  split
  · next run hrun =>
    exact presorted?_begins hrun
  · split
    · exact ⟨blockLength, by decide, sortBlock_perm less _⟩
    · exact ⟨least, h, List.Perm.refl _⟩

def elements (runs : List (Run α)) : List α :=
  runs.flatMap Run.items

theorem runs_perm (less : α → α → Bool) (eager : Bool) {least : Nat}
    (h : 0 < least) (xs : List α) :
    (elements (runs less eager least xs)).Perm xs := by
  fun_induction runs less eager least xs with
  | case1 =>
      exact List.Perm.refl _
  | case2 x rest run ih =>
      exact (ih.append_left _).trans
        (firstRun_begins less eager h (x :: rest)).append_drop_perm

theorem Run.inOrder_perm {sort : List α → List α} (h : Moves sort)
    (run : Run α) : (run.inOrder sort).Perm run.items := by
  unfold Run.inOrder
  split
  · exact List.Perm.refl _
  · exact h _

theorem Run.join_perm (less : α → α → Bool) {sort : List α → List α}
    (h : Moves sort) (left right : Run α) :
    (left.join less sort right).items.Perm (left.items ++ right.items) := by
  unfold Run.join
  split
  · exact (merge_perm less _ _).trans
      ((left.inOrder_perm h).append (right.inOrder_perm h))
  · exact List.Perm.refl _

def waitingElements (waiting : List (Run α × Nat)) : List α :=
  elements (waiting.reverse.map Prod.fst)

theorem waitingElements_cons (run : Run α) (depth : Nat)
    (waiting : List (Run α × Nat)) :
    waitingElements ((run, depth) :: waiting) =
      waitingElements waiting ++ run.items := by
  simp [waitingElements, elements]

theorem joinDeeper_perm (less : α → α → Bool) {sort : List α → List α}
    (h : Moves sort) (depth : Nat) (run : Run α)
    (waiting : List (Run α × Nat)) :
    (waitingElements (joinDeeper less sort depth run waiting).2 ++
      (joinDeeper less sort depth run waiting).1.items).Perm
        (waitingElements waiting ++ run.items) := by
  induction waiting generalizing run with
  | nil =>
      exact List.Perm.refl _
  | cons head rest ih =>
      obtain ⟨left, deep⟩ := head
      unfold joinDeeper
      split
      · refine (ih _).trans ?_
        rw [waitingElements_cons, List.append_assoc]
        exact (left.join_perm less h run).append_left _
      · exact List.Perm.refl _

theorem joinDeeper_zero (less : α → α → Bool) (sort : List α → List α)
    (run : Run α) (waiting : List (Run α × Nat)) :
    (joinDeeper less sort 0 run waiting).2 = [] := by
  induction waiting generalizing run with
  | nil =>
      rfl
  | cons head rest ih =>
      simpa [joinDeeper] using ih _

theorem joinRuns_perm (less : α → α → Bool) {sort : List α → List α}
    (h : Moves sort) (length start : Nat) (run : Run α)
    (waiting : List (Run α × Nat)) (rest : List (Run α)) :
    (joinRuns less sort length start run waiting rest).items.Perm
      (waitingElements waiting ++ run.items ++ elements rest) := by
  induction rest generalizing start run waiting with
  | nil =>
      have joined := joinDeeper_perm less h 0 run waiting
      rw [joinDeeper_zero] at joined
      simpa [joinRuns, elements, waitingElements] using joined
  | cons next rest ih =>
      refine (ih _ _ _).trans ?_
      rw [waitingElements_cons]
      have joined := joinDeeper_perm less h
        (boundaryDepth length start (start + run.items.length)
          (start + run.items.length + next.items.length)) run waiting
      refine ((joined.append_right _).append_right _).trans ?_
      rw [List.append_assoc]
      exact List.Perm.refl _

theorem leastRun_pos {length : Nat} (h : 0 < length) :
    0 < leastRun length := by
  unfold leastRun
  split
  · omega
  · next hlarge =>
    have pow : 2 ≤ Nat.pow 2 ((1 + length.log2) / 2) := by
      have : 1 ≤ (1 + length.log2) / 2 := by
        have := (Nat.le_log2 (by omega : length ≠ 0)).2
          (show 2 ^ 1 ≤ length by omega)
        omega
      exact Nat.pow_le_pow_right (by decide : 0 < 2) this
    simp only
    generalize length / Nat.pow 2 ((1 + length.log2) / 2) = quotient
    omega

theorem byRuns_perm (less : α → α → Bool) (eager : Bool)
    {sort : List α → List α} (h : Moves sort) (xs : List α) :
    (byRuns less eager sort xs).Perm xs := by
  cases xs with
  | nil =>
      simp [byRuns, runs]
  | cons x rest =>
      have all := runs_perm less eager
        (leastRun_pos (by simp : 0 < (x :: rest).length)) (x :: rest)
      unfold byRuns
      split
      · next hruns =>
        rw [hruns] at all
        exact all
      · next first others hruns =>
        rw [hruns] at all
        refine (Run.inOrder_perm h _).trans
          ((joinRuns_perm less h _ _ _ _ _).trans ?_)
        exact all

end Sorting
end CudaProfile
