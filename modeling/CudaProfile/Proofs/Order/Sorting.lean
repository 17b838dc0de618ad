import CudaProfile.Order.Sorting
import CudaProfile.Proofs.Order.Stability
/-!
# Stable sorting of lists

For an order that does not contradict itself on the elements of a list, sorting
gives the one stable arrangement in order. A stretch that ascends is one
already and a stretch that strictly descends becomes one when it is reversed.
Runs are joined by merging, and a partition keeps each class in one part.
-/

namespace CudaProfile
namespace Sorting

variable {α : Type} {less : α → α → Bool} {P : α → Prop}

/-! ## Stretches already in order -/

theorem pairwise_take_chainLength {related : α → α → Bool}
    (htrans : ∀ {a b c}, P a → P b → P c → related a b = true →
      related b c = true → related a c = true) {xs : List α}
    (hxs : ∀ x ∈ xs, P x) :
    (xs.take (chainLength related xs)).Pairwise
      fun a b => related a b = true := by
  fun_induction chainLength related xs with
  | case1 =>
      exact List.Pairwise.nil
  | case2 x =>
      exact List.pairwise_singleton _ x
  | case3 x y rest h ih =>
      have hrest := List.forall_mem_of_forall_mem_cons hxs
      have hchain := ih hrest
      rw [List.take_succ_cons]
      refine List.pairwise_cons.mpr ⟨?_, hchain⟩
      intro z hz
      rcases Nat.exists_eq_add_of_lt (chainLength_pos related y rest) with
        ⟨n, hn⟩
      rw [hn, Nat.zero_add, List.take_succ_cons] at hz hchain
      rcases List.mem_cons.mp hz with rfl | hz
      · exact h
      · exact htrans (hxs x List.mem_cons_self) (hrest y List.mem_cons_self)
          (hrest z (List.mem_cons_of_mem y (List.mem_of_mem_take hz))) h
          (List.rel_of_pairwise_cons hchain hz)
  | case4 x y rest h =>
      exact List.pairwise_singleton _ x

/-- A list that strictly descends is reversed by moving every element past all
others. -/
theorem reverse_sorts (order : WeakOrder less P) {xs : List α}
    (hxs : ∀ x ∈ xs, P x) (h : xs.Pairwise fun a b => less b a = true) :
    Sorts less P xs.reverse xs where
  ordered := by
    refine List.pairwise_reverse.mpr (h.imp_of_mem ?_)
    intro a b ha hb hless
    exact order.asymm (hxs b hb) (hxs a ha) hless
  toKeeps := by
    induction xs with
    | nil =>
        exact Keeps.refl []
    | cons x xs ih =>
        rcases List.pairwise_cons.mp h with ⟨hbelow, hrest⟩
        have hothers := List.forall_mem_of_forall_mem_cons hxs
        have hpast := Keeps.cons_middle order (hxs x List.mem_cons_self)
          hothers (fun y hy => by simp [same, hbelow y hy]) []
        rw [List.append_nil] at hpast
        rw [List.reverse_cons]
        exact ((ih hothers hrest).append_right [x]).trans hpast.symm

theorem presorted?_sorts (order : WeakOrder less P) {least : Nat}
    {xs run : List α} (hxs : ∀ x ∈ xs, P x)
    (h : presorted? less least xs = some run) :
    ∃ n, 0 < n ∧ Sorts less P run (xs.take n) := by
  unfold presorted? at h
  split at h
  · next x y rest =>
    refine ⟨_, chainLength_pos (fun a b => less b a = less y x) x (y :: rest),
      ?_⟩
    have hwithin : ∀ n, ∀ z ∈ (x :: y :: rest).take n, P z := fun n z hz =>
      hxs z (List.mem_of_mem_take hz)
    simp only at h
    split at h
    · cases h
    · split at h
      · next hless =>
        cases h
        rw [hless]
        refine reverse_sorts order (hwithin _) ?_
        refine (pairwise_take_chainLength ?_ hxs).imp of_decide_eq_true
        intro a b c ha hb hc hab hbc
        simp only [decide_eq_true_eq] at hab hbc ⊢
        exact order.trans_le hc hb ha hbc (order.asymm hb ha hab)
      · next hless =>
        cases h
        rw [Bool.eq_false_iff.mpr hless]
        refine Ordered.sorts ?_
        refine (pairwise_take_chainLength ?_ hxs).imp of_decide_eq_true
        intro a b c ha hb hc hab hbc
        simp only [decide_eq_true_eq] at hab hbc ⊢
        exact order.le_trans ha hb hc hab hbc
  · cases h

/-! ## Runs -/

/-- Whether a way to sort gives the stable arrangement of every list of
elements with a property. -/
def Stable (less : α → α → Bool) (P : α → Prop)
    (sort : List α → List α) : Prop :=
  ∀ {xs}, (∀ x ∈ xs, P x) → Sorts less P (sort xs) xs

structure Run.Sound (less : α → α → Bool) (P : α → Prop) (run : Run α) :
    Prop where
  within : ∀ x ∈ run.items, P x
  ordered : run.sorted = true → Ordered less run.items

theorem firstRun_sound (order : WeakOrder less P) (eager : Bool) {least : Nat}
    (hleast : 0 < least) {xs : List α} (hxs : ∀ x ∈ xs, P x) :
    (firstRun less eager least xs).Sound less P ∧
      ∃ n, 0 < n ∧
        Keeps less P (firstRun less eager least xs).items (xs.take n) := by
  have hwithin : ∀ n, ∀ x ∈ xs.take n, P x := fun n x hx =>
    hxs x (List.mem_of_mem_take hx)
  unfold firstRun
  split
  · next run hrun =>
    rcases presorted?_sorts order hxs hrun with ⟨n, hn, hsorts⟩
    exact ⟨⟨hsorts.forall_mem (hwithin n), fun _ => hsorts.ordered⟩, n, hn,
      hsorts.toKeeps⟩
  · split
    · have hsorts := sortBlock_sorts order (hwithin blockLength)
      exact ⟨⟨hsorts.forall_mem (hwithin _), fun _ => hsorts.ordered⟩, _,
        by decide, hsorts.toKeeps⟩
    · exact ⟨⟨hwithin least, fun h => absurd h Bool.false_ne_true⟩, least,
        hleast, Keeps.refl _⟩

theorem runs_sound (order : WeakOrder less P) (eager : Bool) {least : Nat}
    (hleast : 0 < least) {xs : List α} (hxs : ∀ x ∈ xs, P x) :
    (∀ run ∈ runs less eager least xs, run.Sound less P) ∧
      Keeps less P (elements (runs less eager least xs)) xs := by
  fun_induction runs less eager least xs with
  | case1 =>
      exact ⟨List.forall_mem_nil _, Keeps.refl []⟩
  | case2 x rest run ih =>
      rcases firstRun_sound order eager hleast hxs with ⟨hsound, n, hn, hkeeps⟩
      have hdrop := drop_of_perm_take hn hkeeps.perm
      have hothers : ∀ y ∈ rest.drop (run.items.length - 1), P y := fun y hy =>
        hxs y (List.mem_cons_of_mem x (List.mem_of_mem_drop hy))
      rcases ih hothers with ⟨hsounds, hkeeps'⟩
      refine ⟨List.forall_mem_cons.mpr ⟨hsound, hsounds⟩, ?_⟩
      have hrest : Keeps less P (rest.drop (run.items.length - 1))
          ((x :: rest).drop n) := by
        rw [hdrop]
        exact Keeps.refl _
      have hall := hkeeps.append (hkeeps'.trans hrest)
      rw [List.take_append_drop] at hall
      exact hall

/-! ## Joining runs -/

section Joining

variable {sort : List α → List α}

theorem Run.inOrder_sorts (hsort : Stable less P sort) {run : Run α}
    (h : run.Sound less P) : Sorts less P (run.inOrder sort) run.items := by
  unfold Run.inOrder
  split
  · next hsorted =>
    exact (h.ordered hsorted).sorts
  · exact hsort h.within

theorem Run.join_sound (order : WeakOrder less P) (hsort : Stable less P sort)
    {left right : Run α} (hleft : left.Sound less P)
    (hright : right.Sound less P) :
    (left.join less sort right).Sound less P ∧
      Keeps less P (left.join less sort right).items
        (left.items ++ right.items) := by
  have hwithin := List.forall_mem_append.mpr ⟨hleft.within, hright.within⟩
  unfold Run.join
  split
  · have hfirst := Run.inOrder_sorts hsort hleft
    have hsecond := Run.inOrder_sorts hsort hright
    have hmerged := hfirst.mergeUp order hsecond hleft.within hright.within
    rw [← merge_eq_mergeUp order (hfirst.forall_mem hleft.within)
      (hsecond.forall_mem hright.within) hfirst.ordered
      hsecond.ordered] at hmerged
    exact ⟨⟨hmerged.forall_mem hwithin, fun _ => hmerged.ordered⟩,
      hmerged.toKeeps⟩
  · exact ⟨⟨hwithin, fun h => absurd h Bool.false_ne_true⟩, Keeps.refl _⟩

theorem joinDeeper_sound (order : WeakOrder less P)
    (hsort : Stable less P sort) (depth : Nat) {run : Run α}
    {waiting : List (Run α × Nat)} (hrun : run.Sound less P)
    (hwaiting : ∀ w ∈ waiting, w.1.Sound less P) :
    (joinDeeper less sort depth run waiting).1.Sound less P ∧
      (∀ w ∈ (joinDeeper less sort depth run waiting).2, w.1.Sound less P) ∧
      Keeps less P
        (waitingElements (joinDeeper less sort depth run waiting).2 ++
          (joinDeeper less sort depth run waiting).1.items)
        (waitingElements waiting ++ run.items) := by
  induction waiting generalizing run with
  | nil =>
      exact ⟨hrun, hwaiting, Keeps.refl _⟩
  | cons head rest ih =>
      rcases head with ⟨left, deep⟩
      unfold joinDeeper
      split
      · rcases Run.join_sound order hsort (hwaiting _ List.mem_cons_self)
          hrun with ⟨hjoined, hkeeps⟩
        rcases ih hjoined (List.forall_mem_of_forall_mem_cons hwaiting) with
          ⟨hsound, hothers, hall⟩
        refine ⟨hsound, hothers, hall.trans ?_⟩
        rw [waitingElements_cons, List.append_assoc]
        exact hkeeps.append_left _
      · exact ⟨hrun, hwaiting, Keeps.refl _⟩

theorem forall_sound_cons {run : Run α} {depth : Nat}
    {waiting : List (Run α × Nat)} (hrun : run.Sound less P)
    (hwaiting : ∀ w ∈ waiting, w.1.Sound less P) :
    ∀ w ∈ (run, depth) :: waiting, w.1.Sound less P :=
  List.forall_mem_cons.mpr ⟨hrun, hwaiting⟩

theorem joinRuns_sound (order : WeakOrder less P) (hsort : Stable less P sort)
    (length start : Nat) {run : Run α} {waiting : List (Run α × Nat)}
    {rest : List (Run α)} (hrun : run.Sound less P)
    (hwaiting : ∀ w ∈ waiting, w.1.Sound less P)
    (hrest : ∀ next ∈ rest, next.Sound less P) :
    (joinRuns less sort length start run waiting rest).Sound less P ∧
      Keeps less P (joinRuns less sort length start run waiting rest).items
        (waitingElements waiting ++ run.items ++ elements rest) := by
  induction rest generalizing start run waiting with
  | nil =>
      rcases joinDeeper_sound order hsort 0 hrun hwaiting with
        ⟨hsound, _, hkeeps⟩
      rw [joinDeeper_zero] at hkeeps
      refine ⟨hsound, ?_⟩
      rw [elements, List.flatMap_nil, List.append_nil]
      exact hkeeps
  | cons next rest ih =>
      rcases List.forall_mem_cons.mp hrest with ⟨hnext, hothers⟩
      rcases joinDeeper_sound order hsort
        (boundaryDepth length start (start + run.items.length)
          (start + run.items.length + next.items.length)) hrun hwaiting with
        ⟨hsound, hwaiting', hkeeps⟩
      rcases ih (start + run.items.length) hnext
        (forall_sound_cons hsound hwaiting') hothers with
        ⟨hall, hkeeps'⟩
      refine ⟨hall, hkeeps'.trans ?_⟩
      rw [waitingElements_cons]
      refine ((hkeeps.append_right _).append_right _).trans ?_
      rw [List.append_assoc]
      exact Keeps.refl _

theorem byRuns_stable (order : WeakOrder less P) (eager : Bool)
    (hsort : Stable less P sort) :
    Stable less P (byRuns less eager sort) := by
  intro xs hxs
  cases xs with
  | nil =>
      simp only [byRuns, runs]
      exact Ordered.sorts List.Pairwise.nil
  | cons x rest =>
      rcases runs_sound order eager (leastRun_pos (Nat.succ_pos rest.length))
        hxs with ⟨hsounds, hkeeps⟩
      unfold byRuns
      rw [List.length_cons]
      split
      · next hruns =>
        rw [hruns] at hkeeps
        exact (Ordered.sorts List.Pairwise.nil).of_keeps hkeeps
      · next first others hruns =>
        rw [hruns] at hkeeps hsounds
        rcases List.forall_mem_cons.mp hsounds with ⟨hfirst, hothers⟩
        rcases joinRuns_sound order hsort (rest.length + 1) 0 hfirst
          (List.forall_mem_nil _) hothers with ⟨hsound, hall⟩
        exact (Run.inOrder_sorts hsort hsound).of_keeps (hall.trans hkeeps)

end Joining

/-! ## Partition -/

theorem filter_filter_same {p : α → Bool} {c : α} {xs : List α}
    (h : ∀ x ∈ xs, same less c x = true → p x = p c) :
    (xs.filter p).filter (same less c) =
      if p c then xs.filter (same less c) else [] := by
  rw [List.filter_filter]
  split
  · next hp =>
    apply List.filter_congr
    intro x hx
    cases hsame : same less c x with
    | false =>
        rfl
    | true =>
        exact (h x hx hsame).trans hp
  · next hp =>
    apply List.filter_eq_nil_iff.mpr
    intro x hx hboth
    rcases Bool.and_eq_true_iff.mp hboth with ⟨hsame, hpx⟩
    exact hp ((h x hx hsame).symm.trans hpx)

theorem keeps_filter_append_filter_not {p : α → Bool}
    (hp : ∀ {a b}, P a → P b → same less a b = true → p b = p a)
    {xs : List α} (hxs : ∀ x ∈ xs, P x) :
    Keeps less P (xs.filter p ++ xs.filter fun x => !p x) xs where
  perm := filter_append_filter_not_perm p xs
  classes c hc := by
    have hclass : ∀ x ∈ xs, same less c x = true → p x = p c := fun x hx =>
      hp hc (hxs x hx)
    rw [List.filter_append, filter_filter_same hclass,
      filter_filter_same fun x hx hsame => congrArg (!·) (hclass x hx hsame)]
    cases p c with
    | false =>
        rfl
    | true =>
        exact List.append_nil _

theorem Sorts.append {xs xs' ys ys' : List α} (h : Sorts less P xs' xs)
    (h' : Sorts less P ys' ys)
    (hle : ∀ x ∈ xs, ∀ y ∈ ys, less y x = false) :
    Sorts less P (xs' ++ ys') (xs ++ ys) where
  toKeeps := h.toKeeps.append h'.toKeeps
  ordered := List.pairwise_append.mpr ⟨h.ordered, h'.ordered,
    fun x hx y hy => hle x (h.perm.mem_iff.mp hx) y (h'.perm.mem_iff.mp hy)⟩

theorem sorts_pivot_class_append (order : WeakOrder less P) {pivot : α}
    {xs greater : List α} (hpivot : P pivot) (hxs : ∀ x ∈ xs, P x)
    (hleast : ∀ x ∈ xs, less x pivot = false)
    (h : Sorts less P greater (xs.filter fun x => less pivot x)) :
    Sorts less P ((xs.filter fun x => !less pivot x) ++ greater) xs := by
  have hequal : Ordered less (xs.filter fun x => !less pivot x) := by
    refine List.pairwise_of_forall_mem_list ?_
    intro a ha b hb
    rcases List.mem_filter.mp ha with ⟨ha, hnot⟩
    have hb := (List.mem_filter.mp hb).1
    exact order.le_trans (hxs a ha) hpivot (hxs b hb)
      ((Bool.not_eq_true' _).mp hnot) (hleast b hb)
  have hparts := keeps_filter_append_filter_not
    (p := fun x => !less pivot x) (fun ha hb hsame =>
      congrArg (!·) (order.less_congr_right ha hb hpivot hsame).symm) hxs
  simp only [Bool.not_not] at hparts
  refine (hequal.sorts.append h ?_).of_keeps hparts
  intro x hx y hy
  rcases List.mem_filter.mp hx with ⟨hx, hnot⟩
  rcases List.mem_filter.mp hy with ⟨hy, habove⟩
  exact order.asymm (hxs x hx) (hxs y hy)
    (order.le_trans_less (hxs x hx) hpivot (hxs y hy)
      ((Bool.not_eq_true' _).mp hnot) habove)

theorem sorts_below_append (order : WeakOrder less P) {pivot : α}
    {xs lesser others : List α} (hpivot : P pivot) (hxs : ∀ x ∈ xs, P x)
    (h : Sorts less P lesser (xs.filter fun x => less x pivot))
    (h' : Sorts less P others (xs.filter fun x => !less x pivot)) :
    Sorts less P (lesser ++ others) xs := by
  have hparts := keeps_filter_append_filter_not
    (p := fun x => less x pivot) (fun ha hb hsame =>
      (order.less_congr_left ha hb hpivot hsame).symm) hxs
  refine (h.append h' ?_).of_keeps hparts
  intro x hx y hy
  rcases List.mem_filter.mp hx with ⟨hx, hbelow⟩
  rcases List.mem_filter.mp hy with ⟨hy, hnot⟩
  exact order.asymm (hxs x hx) (hxs y hy)
    (order.trans_le (hxs x hx) hpivot (hxs y hy) hbelow
      ((Bool.not_eq_true' _).mp hnot))

theorem filter_append_cons_pos {p : α → Bool} {x : α} (hx : p x = true)
    (before after : List α) :
    before.filter p ++ x :: after.filter p =
      (before ++ x :: after).filter p := by
  rw [List.filter_append, List.filter_cons_of_pos hx]

theorem filter_append_cons_neg {p : α → Bool} {x : α} (hx : p x = false)
    (before after : List α) :
    before.filter p ++ after.filter p = (before ++ x :: after).filter p := by
  rw [List.filter_append, List.filter_cons_of_neg (by simp [hx])]

def Bounded (less : α → α → Bool) (P : α → Prop) (bound : Option α)
    (xs : List α) : Prop :=
  ∀ b ∈ bound, P b ∧ ∀ x ∈ xs, less x b = false

theorem bounded_none (xs : List α) : Bounded less P none xs := by
  intro b hb
  cases hb

theorem Bounded.filter {bound : Option α} {xs : List α}
    (h : Bounded less P bound xs) (p : α → Bool) :
    Bounded less P bound (xs.filter p) :=
  fun b hb => ⟨(h b hb).1, fun x hx => (h b hb).2 x (List.mem_of_mem_filter hx)⟩

theorem Bounded.not_less (order : WeakOrder less P) {bound : Option α}
    {xs : List α} {pivot : α} (h : Bounded less P bound xs)
    (hxs : ∀ x ∈ xs, P x) (hpivot : P pivot)
    (hbound : bound.any (fun b => !less b pivot) = true) :
    ∀ x ∈ xs, less x pivot = false := by
  intro x hx
  rcases (Option.any_eq_true _ _).mp hbound with ⟨b, hb, hnot⟩
  rcases h b hb with ⟨hP, hleast⟩
  exact order.le_trans hpivot hP (hxs x hx) ((Bool.not_eq_true' _).mp hnot)
    (hleast x hx)

theorem byPartition_sorts (order : WeakOrder less P)
    {fallback : List α → List α} (hfallback : Stable less P fallback)
    (limit : Nat) {bound : Option α} {xs : List α} (hxs : ∀ x ∈ xs, P x)
    (hbound : Bounded less P bound xs) :
    Sorts less P (byPartition less fallback limit bound xs) xs := by
  induction limit generalizing bound xs with
  | zero =>
      unfold byPartition
      split
      · exact sortBlock_sorts order hxs
      · exact hfallback hxs
  | succ limit ih =>
      unfold byPartition
      split
      · exact sortBlock_sorts order hxs
      · simp only
        split
        · exact hfallback hxs
        · next pivot after hafter =>
          have whole : xs = xs.take (pivotPlace less xs) ++ pivot :: after := by
            rw [← hafter, List.take_append_drop]
          generalize xs.take (pivotPlace less xs) = before at *
          have hpivot : P pivot := hxs pivot (by simp [whole])
          have hself := order.irrefl hpivot
          have hwithin : ∀ p, ∀ x ∈ xs.filter p, P x := fun p x hx =>
            hxs x (List.mem_of_mem_filter hx)
          have hnot : (!less pivot pivot) = true := congrArg (!·) hself
          -- Every part is what a filter leaves of the whole list.
          rw [filter_append_cons_neg (p := fun x => less x pivot) hself,
            filter_append_cons_neg (p := fun x => less pivot x) hself,
            filter_append_cons_pos (p := fun x => !less x pivot) hnot,
            filter_append_cons_pos (p := fun x => !less pivot x) hnot, ← whole]
          split
          · next h =>
            refine sorts_pivot_class_append order hpivot hxs ?_
              (ih (hwithin _) (bounded_none _))
            rcases Bool.or_eq_true_iff.mp h with hempty | hequal
            · intro x hx
              exact Bool.eq_false_iff.mpr
                (List.filter_eq_nil_iff.mp (List.isEmpty_iff.mp hempty) x hx)
            · exact hbound.not_less order hxs hpivot hequal
          -- The lesser part keeps the bound, and the pivot bounds the others.
          · refine sorts_below_append order hpivot hxs
              (ih (hwithin _) (hbound.filter _)) (ih (hwithin _) ?_)
            intro b hb
            cases hb
            exact ⟨hpivot, fun x hx =>
              (Bool.not_eq_true' _).mp (List.mem_filter.mp hx).2⟩

end Sorting

open Sorting

/-- For an order that does not contradict itself on the elements of a list,
sorting gives the stable arrangement in order. -/
theorem sortBy_sorts {α : Type} {less : α → α → Bool} {P : α → Prop}
    (order : WeakOrder less P) {xs : List α} (hxs : ∀ x ∈ xs, P x) :
    Sorts less P (sortBy less xs) xs := by
  have hblocks : Stable less P (byRuns less true (sortBlock less)) :=
    byRuns_stable order true (sortBlock_sorts order)
  unfold sortBy
  simp only
  split
  · exact byInsertion_sorts order hxs
  · split
    · exact hblocks hxs
    · exact byRuns_stable order false
        (fun hpart => byPartition_sorts order hblocks _ hpart (bounded_none _))
        hxs

end CudaProfile
