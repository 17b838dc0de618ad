import CudaProfile.Order.Sorting.Small
import Mathlib
/-!
# Stable sorting of small blocks

An order contradicts itself on some elements if two of them are below each
other, or if one is below another although a third lies neither above the first
nor below the second. Where it does not, the elements fall into classes of
which none has elements below each other, and a list has one stable arrangement
in order: its elements class after class, those of one class as they came.
Merging from the front, from the back and from both ends gives this
arrangement, and so does insertion.
-/

namespace CudaProfile
namespace Sorting

variable {α : Type} {less : α → α → Bool} {P : α → Prop}

/-! ## Orders that do not contradict themselves -/

/-- Whether an order does not contradict itself on the elements with a
property. -/
structure WeakOrder (less : α → α → Bool) (P : α → Prop) : Prop where
  asymm : ∀ {a b}, P a → P b → less a b = true → less b a = false
  between : ∀ {a b c}, P a → P b → P c → less a c = true →
    less a b = true ∨ less b c = true

def same (less : α → α → Bool) (a b : α) : Bool :=
  !less a b && !less b a

theorem same_iff {a b : α} :
    same less a b = true ↔ less a b = false ∧ less b a = false := by
  simp [same]

theorem same_comm (a b : α) : same less a b = same less b a :=
  Bool.and_comm _ _

namespace WeakOrder

theorem irrefl (h : WeakOrder less P) {a : α} (ha : P a) :
    less a a = false := by
  cases hless : less a a with
  | false =>
      rfl
  | true =>
      exact hless.symm.trans (h.asymm ha ha hless)

theorem same_self (h : WeakOrder less P) {a : α} (ha : P a) :
    same less a a = true :=
  same_iff.mpr ⟨h.irrefl ha, h.irrefl ha⟩

theorem flip (h : WeakOrder less P) : WeakOrder (fun a b => less b a) P where
  asymm ha hb hless := h.asymm hb ha hless
  between ha hb hc hless := (h.between hc hb ha hless).symm

theorem trans_le (h : WeakOrder less P) {a b c : α} (ha : P a) (hb : P b)
    (hc : P c) (hab : less a b = true) (hbc : less c b = false) :
    less a c = true := by
  rcases h.between ha hc hb hab with hless | hless
  · exact hless
  · exact absurd (hbc.symm.trans hless) Bool.false_ne_true

theorem le_trans_less (h : WeakOrder less P) {a b c : α} (ha : P a) (hb : P b)
    (hc : P c) (hab : less b a = false) (hbc : less b c = true) :
    less a c = true :=
  h.flip.trans_le hc hb ha hbc hab

theorem le_trans (h : WeakOrder less P) {a b c : α} (ha : P a) (hb : P b)
    (hc : P c) (hab : less b a = false) (hbc : less c b = false) :
    less c a = false := by
  apply Bool.eq_false_iff.mpr
  intro hca
  have hcb := h.trans_le hc ha hb hca hab
  exact Bool.false_ne_true (hbc.symm.trans hcb)

theorem less_congr_left (h : WeakOrder less P) {a b c : α} (ha : P a)
    (hb : P b) (hc : P c) (hab : same less a b = true) :
    less a c = less b c := by
  rcases same_iff.mp hab with ⟨hleft, hright⟩
  apply Bool.eq_iff_iff.mpr
  exact ⟨h.le_trans_less hb ha hc hleft, h.le_trans_less ha hb hc hright⟩

theorem less_congr_right (h : WeakOrder less P) {a b c : α} (ha : P a)
    (hb : P b) (hc : P c) (hab : same less a b = true) :
    less c a = less c b :=
  h.flip.less_congr_left ha hb hc ((same_comm b a).trans hab)

theorem same_congr (h : WeakOrder less P) {a b c : α} (ha : P a) (hb : P b)
    (hc : P c) (hab : same less a b = true) :
    same less c a = same less c b := by
  rw [same, same, h.less_congr_left ha hb hc hab,
    h.less_congr_right ha hb hc hab]

end WeakOrder

/-! ## Lists in order -/

def Ordered (less : α → α → Bool) (xs : List α) : Prop :=
  xs.Pairwise fun a b => less b a = false

structure Keeps (less : α → α → Bool) (P : α → Prop) (ys xs : List α) :
    Prop where
  perm : ys.Perm xs
  classes : ∀ c, P c → ys.filter (same less c) = xs.filter (same less c)

namespace Keeps

theorem refl (xs : List α) : Keeps less P xs xs :=
  ⟨.refl xs, fun _ _ => rfl⟩

theorem symm {ys xs : List α} (h : Keeps less P ys xs) : Keeps less P xs ys :=
  ⟨h.perm.symm, fun c hc => (h.classes c hc).symm⟩

theorem trans {zs ys xs : List α} (h : Keeps less P zs ys)
    (h' : Keeps less P ys xs) : Keeps less P zs xs :=
  ⟨h.perm.trans h'.perm,
    fun c hc => (h.classes c hc).trans (h'.classes c hc)⟩

theorem append {ys ys' xs xs' : List α} (h : Keeps less P ys xs)
    (h' : Keeps less P ys' xs') : Keeps less P (ys ++ ys') (xs ++ xs') where
  perm := h.perm.append h'.perm
  classes c hc := by
    rw [List.filter_append, List.filter_append, h.classes c hc,
      h'.classes c hc]

theorem append_left {ys xs : List α} (zs : List α) (h : Keeps less P ys xs) :
    Keeps less P (zs ++ ys) (zs ++ xs) :=
  (refl zs).append h

theorem append_right {ys xs : List α} (h : Keeps less P ys xs) (zs : List α) :
    Keeps less P (ys ++ zs) (xs ++ zs) :=
  h.append (refl zs)

theorem cons {ys xs : List α} (x : α) (h : Keeps less P ys xs) :
    Keeps less P (x :: ys) (x :: xs) :=
  h.append_left [x]

theorem forall_mem {ys xs : List α} (h : Keeps less P ys xs)
    (hxs : ∀ x ∈ xs, P x) : ∀ y ∈ ys, P y :=
  fun y hy => hxs y (h.perm.mem_iff.mp hy)

theorem reverse {ys xs : List α}
    (h : Keeps (fun a b => less b a) P ys xs) :
    Keeps less P ys.reverse xs.reverse where
  perm := (List.reverse_perm ys).trans
    (h.perm.trans (List.reverse_perm xs).symm)
  classes c hc := by
    have hclass : ∀ zs : List α, zs.filter (same less c) =
        zs.filter (same (fun a b => less b a) c) := fun zs =>
      congrArg (fun p => zs.filter p) (funext fun a => same_comm c a)
    rw [List.filter_reverse, List.filter_reverse, hclass, hclass,
      h.classes c hc]

theorem cons_middle (order : WeakOrder less P) {x : α} {before : List α}
    (hx : P x) (hbefore : ∀ y ∈ before, P y)
    (h : ∀ y ∈ before, same less x y = false) (after : List α) :
    Keeps less P (x :: (before ++ after)) (before ++ x :: after) where
  perm := List.perm_middle.symm
  classes c hc := by
    cases hclass : same less c x with
    | false =>
        rw [List.filter_cons_of_neg (by simp [hclass]), List.filter_append,
          List.filter_append, List.filter_cons_of_neg (by simp [hclass])]
    | true =>
        have hnone : before.filter (same less c) = [] := by
          apply List.filter_eq_nil_iff.mpr
          intro y hy hsame
          rw [same_comm,
            order.same_congr hc hx (hbefore y hy) hclass, same_comm] at hsame
          exact Bool.false_ne_true ((h y hy).symm.trans hsame)
        rw [List.filter_cons_of_pos hclass, List.filter_append,
          List.filter_append, List.filter_cons_of_pos hclass, hnone]
        rfl

end Keeps

/-- Whether a list is the stable arrangement in order of another. -/
structure Sorts (less : α → α → Bool) (P : α → Prop) (ys xs : List α) :
    Prop extends Keeps less P ys xs where
  ordered : Ordered less ys

theorem Sorts.of_keeps {zs ys xs : List α} (h : Sorts less P zs ys)
    (hkeeps : Keeps less P ys xs) : Sorts less P zs xs :=
  ⟨h.toKeeps.trans hkeeps, h.ordered⟩

theorem Ordered.sorts {xs : List α} (h : Ordered less xs) :
    Sorts less P xs xs :=
  ⟨Keeps.refl xs, h⟩

theorem Ordered.reverse {xs : List α} (h : Ordered less xs) :
    Ordered (fun a b => less b a) xs.reverse :=
  List.pairwise_reverse.mpr h

theorem Sorts.reverse {ys xs : List α}
    (h : Sorts (fun a b => less b a) P ys xs) :
    Sorts less P ys.reverse xs.reverse :=
  ⟨h.toKeeps.reverse, h.ordered.reverse⟩

theorem Ordered.not_less_head (order : WeakOrder less P) {z : α} {zs : List α}
    (h : Ordered less (z :: zs)) (hz : P z) :
    ∀ w ∈ z :: zs, less w z = false := by
  intro w hw
  rcases List.mem_cons.mp hw with rfl | hw
  · exact order.irrefl hz
  · exact List.rel_of_pairwise_cons h hw

theorem exists_same_of_mem (order : WeakOrder less P) {y : α} {ys zs : List α}
    (hmem : y ∈ ys) (hy : P y)
    (h : (ys.filter (same less y)).length = (zs.filter (same less y)).length) :
    ∃ z ∈ zs, same less y z = true := by
  have hlength : 0 < (ys.filter (same less y)).length :=
    List.length_pos_of_mem (List.mem_filter.mpr ⟨hmem, order.same_self hy⟩)
  rw [h] at hlength
  rcases List.exists_mem_of_length_pos hlength with ⟨z, hz⟩
  exact ⟨z, List.mem_filter.mp hz⟩

theorem Ordered.same_heads (order : WeakOrder less P) {y z : α}
    {ys zs : List α} (hys : ∀ a ∈ y :: ys, P a) (hzs : ∀ a ∈ z :: zs, P a)
    (hordered : Ordered less (y :: ys)) (hordered' : Ordered less (z :: zs))
    (h : ∀ c, P c → ((y :: ys).filter (same less c)).length =
      ((z :: zs).filter (same less c)).length) : same less y z = true := by
  have hy := hys y List.mem_cons_self
  have hz := hzs z List.mem_cons_self
  rcases exists_same_of_mem order List.mem_cons_self hy (h y hy) with
    ⟨w, hw, hsame⟩
  rcases exists_same_of_mem order List.mem_cons_self hz (h z hz).symm with
    ⟨w', hw', hsame'⟩
  apply same_iff.mpr
  constructor
  · rw [order.less_congr_left hy (hzs w hw) hz hsame]
    exact hordered'.not_less_head order hz w hw
  · rw [order.less_congr_left hz (hys w' hw') hy hsame']
    exact hordered.not_less_head order hy w' hw'

theorem Ordered.forall₂ (order : WeakOrder less P) {R : α → α → Prop}
    {ys zs : List α} (hys : ∀ y ∈ ys, P y) (hzs : ∀ z ∈ zs, P z)
    (hordered : Ordered less ys) (hordered' : Ordered less zs)
    (h : ∀ c, P c → List.Forall₂ R (ys.filter (same less c))
      (zs.filter (same less c))) : List.Forall₂ R ys zs := by
  induction ys generalizing zs with
  | nil =>
      cases zs with
      | nil =>
          exact .nil
      | cons z zs =>
          have hz := hzs z List.mem_cons_self
          have hclass := h z hz
          rw [List.filter_cons_of_pos (order.same_self hz)] at hclass
          cases hclass
  | cons y ys ih =>
      have hy := hys y List.mem_cons_self
      cases zs with
      | nil =>
          have hclass := h y hy
          rw [List.filter_cons_of_pos (order.same_self hy)] at hclass
          cases hclass
      | cons z zs =>
          have hz := hzs z List.mem_cons_self
          have hheads := Ordered.same_heads order hys hzs hordered hordered'
            fun c hc => (h c hc).length_eq
          -- The heads come first in their class, and in no other.
          have hclass := h y hy
          rw [List.filter_cons_of_pos (order.same_self hy),
            List.filter_cons_of_pos hheads] at hclass
          refine .cons (List.forall₂_cons.mp hclass).1
            (ih (List.forall_mem_of_forall_mem_cons hys)
              (List.forall_mem_of_forall_mem_cons hzs) hordered.tail
              hordered'.tail ?_)
          intro c hc
          have hrest := h c hc
          rw [List.filter_cons, List.filter_cons,
            ← order.same_congr hy hz hc hheads] at hrest
          split at hrest
          · exact (List.forall₂_cons.mp hrest).2
          · exact hrest

/-- The stable arrangement is the only one. -/
theorem Sorts.unique (order : WeakOrder less P) {ys zs xs : List α}
    (hxs : ∀ x ∈ xs, P x) (h : Sorts less P ys xs) (h' : Sorts less P zs xs) :
    ys = zs := by
  rw [← List.forall₂_eq_eq_eq]
  apply Ordered.forall₂ order (h.forall_mem hxs) (h'.forall_mem hxs) h.ordered
    h'.ordered
  intro c hc
  rw [h.classes c hc, h'.classes c hc]
  exact List.forall₂_refl _

/-! ## Merging -/

@[simp] theorem mergeUp_nil_left (ys : List α) : mergeUp less [] ys = ys := by
  simp [mergeUp]

@[simp] theorem mergeUp_nil_right (xs : List α) : mergeUp less xs [] = xs := by
  simp [mergeUp]

theorem mergeUp_cons_cons (x y : α) (xs ys : List α) :
    mergeUp less (x :: xs) (y :: ys) =
      if less y x then y :: mergeUp less (x :: xs) ys
      else x :: mergeUp less xs (y :: ys) := by
  rw [mergeUp, List.cons_merge_cons]
  cases less y x with
  | false =>
      rfl
  | true =>
      rfl

theorem Sorts.cons {x : α} {ys xs : List α} (h : Sorts less P ys xs)
    (hx : ∀ y ∈ xs, less y x = false) : Sorts less P (x :: ys) (x :: xs) where
  toKeeps := h.toKeeps.cons x
  ordered := List.pairwise_cons.mpr
    ⟨fun y hy => hx y (h.perm.mem_iff.mp hy), h.ordered⟩

theorem mergeUp_sorts (order : WeakOrder less P) {xs ys : List α}
    (hxs : ∀ x ∈ xs, P x) (hys : ∀ y ∈ ys, P y) (hordered : Ordered less xs)
    (hordered' : Ordered less ys) :
    Sorts less P (mergeUp less xs ys) (xs ++ ys) := by
  induction xs generalizing ys with
  | nil =>
      rw [mergeUp_nil_left]
      exact hordered'.sorts
  | cons x xs ihx =>
      have hx := hxs x List.mem_cons_self
      have hleast := hordered.not_less_head order hx
      induction ys with
      | nil =>
          rw [mergeUp_nil_right, List.append_nil]
          exact hordered.sorts
      | cons y ys ihy =>
          have hy := hys y List.mem_cons_self
          have hleast' := hordered'.not_less_head order hy
          rw [mergeUp_cons_cons]
          cases hless : less y x with
          | true =>
              have habove : ∀ z ∈ x :: xs, less y z = true := fun z hz =>
                order.trans_le hy hx (hxs z hz) hless (hleast z hz)
              have hrest := ihy (List.forall_mem_of_forall_mem_cons hys)
                hordered'.tail
              refine (hrest.cons ?_).of_keeps (Keeps.cons_middle order hy hxs
                (fun z hz => by simp [same, habove z hz]) ys)
              intro z hz
              rcases List.mem_append.mp hz with hz | hz
              · exact order.asymm hy (hxs z hz) (habove z hz)
              · exact hleast' z (List.mem_cons_of_mem y hz)
          | false =>
              refine (ihx (List.forall_mem_of_forall_mem_cons hxs) hys
                hordered.tail hordered').cons ?_
              intro z hz
              rcases List.mem_append.mp hz with hz | hz
              · exact hleast z (List.mem_cons_of_mem x hz)
              · exact order.le_trans hx hy (hys z hz) hless (hleast' z hz)

theorem mergeDown_eq_reverse (xs ys : List α) :
    mergeDown less xs ys =
      (mergeUp (fun a b => less b a) ys.reverse xs.reverse).reverse :=
  rfl

theorem mergeDown_eq_mergeUp (order : WeakOrder less P) {xs ys : List α}
    (hxs : ∀ x ∈ xs, P x) (hys : ∀ y ∈ ys, P y) (hordered : Ordered less xs)
    (hordered' : Ordered less ys) :
    mergeDown less xs ys = mergeUp less xs ys := by
  have hdown := (mergeUp_sorts order.flip
    (fun y hy => hys y (List.mem_reverse.mp hy))
    (fun x hx => hxs x (List.mem_reverse.mp hx)) hordered'.reverse
    hordered.reverse).reverse
  rw [← mergeDown_eq_reverse, ← List.reverse_append,
    List.reverse_reverse] at hdown
  exact hdown.unique order (List.forall_mem_append.mpr ⟨hxs, hys⟩)
    (mergeUp_sorts order hxs hys hordered hordered')

theorem merge_eq_mergeUp (order : WeakOrder less P) {xs ys : List α}
    (hxs : ∀ x ∈ xs, P x) (hys : ∀ y ∈ ys, P y) (hordered : Ordered less xs)
    (hordered' : Ordered less ys) : merge less xs ys = mergeUp less xs ys := by
  unfold merge
  split
  · rfl
  · exact mergeDown_eq_mergeUp order hxs hys hordered hordered'

/-! ## Merging from both ends -/

theorem mergeSteps_length (le : α → α → Bool) (n : Nat) (xs ys : List α) :
    (mergeSteps le n xs ys).fromFirst + (mergeSteps le n xs ys).fromSecond = n ∨
      xs.length ≤ (mergeSteps le n xs ys).fromFirst ∨
        ys.length ≤ (mergeSteps le n xs ys).fromSecond := by
  fun_induction mergeSteps le n xs ys with
  | case1 n x xs y ys h front ih =>
      have hrest : front.fromFirst + front.fromSecond = n ∨
          xs.length ≤ front.fromFirst ∨
            (y :: ys).length ≤ front.fromSecond := ih
      simp only [List.length_cons] at hrest ⊢
      omega
  | case2 n x xs y ys h front ih =>
      have hrest : front.fromFirst + front.fromSecond = n ∨
          (x :: xs).length ≤ front.fromFirst ∨
            ys.length ≤ front.fromSecond := ih
      simp only [List.length_cons] at hrest ⊢
      omega
  | case3 n xs ys h =>
      cases n with
      | zero =>
          exact Or.inl rfl
      | succ n =>
          cases xs with
          | nil =>
              exact Or.inr (Or.inl (Nat.le_refl 0))
          | cons x xs =>
              cases ys with
              | nil =>
                  exact Or.inr (Or.inr (Nat.le_refl 0))
              | cons y ys =>
                  exact absurd rfl (h n x xs y ys rfl rfl)

theorem mergeSteps_append_merge (le : α → α → Bool) (n : Nat) (xs ys : List α)
    {a b : Nat} (ha : (mergeSteps le n xs ys).fromFirst ≤ a)
    (hb : (mergeSteps le n xs ys).fromSecond ≤ b) :
    (mergeSteps le n xs ys).items ++
        ((xs.take a).drop (mergeSteps le n xs ys).fromFirst).merge
          ((ys.take b).drop (mergeSteps le n xs ys).fromSecond) le =
      (xs.take a).merge (ys.take b) le := by
  revert a b
  fun_induction mergeSteps le n xs ys with
  | case1 n x xs y ys h front =>
      rename_i ih
      intro a b ha hb
      cases a with
      | zero =>
          exact absurd ha (Nat.not_succ_le_zero _)
      | succ a =>
          have hrest := @ih a b (Nat.le_of_succ_le_succ ha) hb
          rw [List.take_succ_cons, List.drop_succ_cons, List.cons_append, hrest]
          cases b with
          | zero =>
              simp
          | succ b =>
              rw [List.take_succ_cons, List.cons_merge_cons, if_pos h]
  | case2 n x xs y ys h front =>
      rename_i ih
      intro a b ha hb
      cases b with
      | zero =>
          exact absurd hb (Nat.not_succ_le_zero _)
      | succ b =>
          have hrest := @ih a b ha (Nat.le_of_succ_le_succ hb)
          rw [List.take_succ_cons, List.drop_succ_cons, List.cons_append, hrest]
          cases a with
          | zero =>
              simp
          | succ a =>
              rw [List.take_succ_cons, List.cons_merge_cons, if_neg h]
  | case3 =>
      intro a b _ _
      rfl

theorem mergeSteps_rest {le le' : α → α → Bool} {n : Nat} {xs ys : List α}
    (h : xs.length + ys.length ≤ 2 * n + 1)
    (hxs : (mergeSteps le n xs ys).fromFirst +
      (mergeSteps le' n ys.reverse xs.reverse).fromSecond ≤ xs.length)
    (hys : (mergeSteps le n xs ys).fromSecond +
      (mergeSteps le' n ys.reverse xs.reverse).fromFirst ≤ ys.length) :
    xs.length - (mergeSteps le' n ys.reverse xs.reverse).fromSecond ≤
        (mergeSteps le n xs ys).fromFirst ∨
      ys.length - (mergeSteps le' n ys.reverse xs.reverse).fromFirst ≤
        (mergeSteps le n xs ys).fromSecond := by
  have hfront := mergeSteps_length le n xs ys
  have hback := mergeSteps_length le' n ys.reverse xs.reverse
  rw [List.length_reverse, List.length_reverse] at hback
  omega

theorem mergeDown_append_reverse_mergeSteps {n : Nat} {xs ys : List α}
    {back : MergeFront α}
    (h : mergeSteps (fun y x => !less y x) n ys.reverse xs.reverse = back)
    (hxs : back.fromSecond ≤ xs.length) (hys : back.fromFirst ≤ ys.length) :
    mergeDown less (xs.take (xs.length - back.fromSecond))
        (ys.take (ys.length - back.fromFirst)) ++ back.items.reverse =
      mergeDown less xs ys := by
  subst h
  have hback := mergeSteps_append_merge (fun y x => !less y x) n ys.reverse
    xs.reverse hys hxs
  have hall : ∀ zs : List α, zs.reverse.take zs.length = zs.reverse := fun zs =>
    List.take_of_length_le (Nat.le_of_eq List.length_reverse)
  rw [hall, hall, List.drop_reverse, List.drop_reverse] at hback
  rw [mergeDown, mergeDown, ← hback, List.reverse_append]

theorem mergeBothEnds_eq_mergeUp (order : WeakOrder less P) {xs ys : List α}
    (hxs : ∀ x ∈ xs, P x) (hys : ∀ y ∈ ys, P y) (hordered : Ordered less xs)
    (hordered' : Ordered less ys) :
    mergeBothEnds less xs ys = mergeUp less xs ys := by
  unfold mergeBothEnds
  simp only
  split
  · next h =>
    simp only [Bool.and_eq_true, decide_eq_true_eq] at h
    rcases h with ⟨hfirst, hsecond⟩
    have hrest := mergeSteps_rest (by omega) hfirst hsecond
    have hfront := mergeSteps_append_merge (fun x y => !less y x)
      ((xs.length + ys.length) / 2) xs ys (Nat.le_sub_of_add_le hfirst)
      (Nat.le_sub_of_add_le hsecond)
    have hback := mergeDown_append_reverse_mergeSteps rfl
      (Nat.le_trans (Nat.le_add_left _ _) hfirst)
      (Nat.le_trans (Nat.le_add_left _ _) hsecond)
    rw [mergeDown_eq_mergeUp order hxs hys hordered hordered',
      mergeDown_eq_mergeUp order (fun x hx => hxs x (List.mem_of_mem_take hx))
        (fun y hy => hys y (List.mem_of_mem_take hy))
        (hordered.sublist (List.take_sublist _ _))
        (hordered'.sublist (List.take_sublist _ _))] at hback
    rw [← hback, mergeUp, ← hfront]
    -- One list is used up, so nothing is left to merge in the middle.
    rcases hrest with hrest | hrest
    · rw [List.drop_eq_nil_of_le
        (Nat.le_trans (List.length_take_le _ _) hrest)]
      simp
    · rw [List.drop_eq_nil_of_le
        (Nat.le_trans (List.length_take_le _ _) hrest)]
      simp
  · rfl

/-! ## Insertion -/

theorem insertDescending_eq_reverse (x : α) (xs : List α) :
    insertDescending less x xs = (mergeDown less xs.reverse [x]).reverse := by
  rw [mergeDown_eq_reverse, List.reverse_reverse, List.reverse_reverse]
  induction xs with
  | nil =>
      simp [insertDescending]
  | cons y rest ih =>
      rw [insertDescending, ih, List.reverse_singleton, mergeUp_cons_cons,
        mergeUp_nil_left]

theorem insertAll_cons (sorted : List α) (x : α) (xs : List α) :
    insertAll less sorted (x :: xs) =
      insertAll less (mergeDown less sorted [x]) xs := by
  rw [insertAll, insertAll, List.foldl_cons, insertDescending_eq_reverse,
    List.reverse_reverse]

theorem insertAll_sorts (order : WeakOrder less P) {sorted xs : List α}
    (hsorted : ∀ x ∈ sorted, P x) (hxs : ∀ x ∈ xs, P x)
    (hordered : Ordered less sorted) :
    Sorts less P (insertAll less sorted xs) (sorted ++ xs) := by
  induction xs generalizing sorted with
  | nil =>
      rw [insertAll, List.foldl_nil, List.reverse_reverse, List.append_nil]
      exact hordered.sorts
  | cons x xs ih =>
      have hx : ∀ y ∈ [x], P y :=
        List.forall_mem_singleton.mpr (hxs x List.mem_cons_self)
      have hone : Ordered less [x] := List.pairwise_singleton _ x
      have hmerged := mergeUp_sorts order hsorted hx hordered hone
      rw [insertAll_cons, mergeDown_eq_mergeUp order hsorted hx hordered hone,
        List.append_cons]
      exact (ih (hmerged.forall_mem (List.forall_mem_append.mpr ⟨hsorted, hx⟩))
        (List.forall_mem_of_forall_mem_cons hxs) hmerged.ordered).of_keeps
          (hmerged.toKeeps.append_right xs)

theorem byInsertion_sorts (order : WeakOrder less P) {xs : List α}
    (hxs : ∀ x ∈ xs, P x) : Sorts less P (byInsertion less xs) xs :=
  insertAll_sorts order (List.forall_mem_nil P) hxs List.Pairwise.nil

/-! ## Small blocks -/

theorem Sorts.mergeUp (order : WeakOrder less P) {xs xs' ys ys' : List α}
    (h : Sorts less P xs' xs) (h' : Sorts less P ys' ys)
    (hxs : ∀ x ∈ xs, P x) (hys : ∀ y ∈ ys, P y) :
    Sorts less P (mergeUp less xs' ys') (xs ++ ys) :=
  (mergeUp_sorts order (h.forall_mem hxs) (h'.forall_mem hys) h.ordered
    h'.ordered).of_keeps (h.toKeeps.append h'.toKeeps)

theorem Sorts.mergeBothEnds (order : WeakOrder less P) {xs xs' ys ys' : List α}
    (h : Sorts less P xs' xs) (h' : Sorts less P ys' ys)
    (hxs : ∀ x ∈ xs, P x) (hys : ∀ y ∈ ys, P y) :
    Sorts less P (mergeBothEnds less xs' ys') (xs ++ ys) := by
  rw [mergeBothEnds_eq_mergeUp order (h.forall_mem hxs) (h'.forall_mem hys)
    h.ordered h'.ordered]
  exact h.mergeUp order h' hxs hys

theorem Ordered.not_less_of_pair {a b : α} (h : Ordered less [a, b]) :
    less b a = false :=
  List.rel_of_pairwise_cons h List.mem_cons_self

theorem forall_mem_pair {a b : α} : (∀ x ∈ [a, b], P x) ↔ P a ∧ P b := by
  rw [List.forall_mem_cons, List.forall_mem_singleton]

theorem sortTwo_eq_mergeUp (a b : α) :
    [(sortTwo less a b).1, (sortTwo less a b).2] = mergeUp less [a] [b] := by
  rw [mergeUp_cons_cons, mergeUp_nil_left, mergeUp_nil_right, sortTwo]
  split
  · rfl
  · rfl

theorem sortPairs_eq_mergeUp (order : WeakOrder less P) {a b c d : α}
    (hfirst : ∀ x ∈ [a, b], P x) (hsecond : ∀ x ∈ [c, d], P x)
    (hordered : Ordered less [a, b]) (hordered' : Ordered less [c, d]) :
    sortPairs less a b c d = mergeUp less [a, b] [c, d] := by
  rcases forall_mem_pair.mp hfirst with ⟨ha, hb⟩
  rcases forall_mem_pair.mp hsecond with ⟨hc, hd⟩
  have hab := hordered.not_less_of_pair
  have hcd := hordered'.not_less_of_pair
  unfold sortPairs sortTwo
  simp only [mergeUp_cons_cons, mergeUp_nil_left, mergeUp_nil_right]
  cases hca : less c a with
  | false =>
      cases hdb : less d b with
      | false =>
          cases less c b with
          | false =>
              simp
          | true =>
              simp
      | true =>
          have hcb := order.le_trans_less hc hd hb hcd hdb
          simp [hcd, hcb]
  | true =>
      cases hdb : less d b with
      | false =>
          have hda := order.le_trans ha hb hd hab hdb
          simp [hab, hda]
      | true =>
          cases less d a with
          | false =>
              simp
          | true =>
              simp

theorem sortTwo_sorts (order : WeakOrder less P) {a b : α}
    (h : ∀ x ∈ [a, b], P x) :
    Sorts less P [(sortTwo less a b).1, (sortTwo less a b).2] [a, b] := by
  rcases forall_mem_pair.mp h with ⟨ha, hb⟩
  rw [sortTwo_eq_mergeUp]
  exact mergeUp_sorts order (List.forall_mem_singleton.mpr ha)
    (List.forall_mem_singleton.mpr hb) (List.pairwise_singleton _ a)
    (List.pairwise_singleton _ b)

theorem sortFour_sorts (order : WeakOrder less P) {a b c d : α}
    (h : ∀ x ∈ [a, b] ++ [c, d], P x) :
    Sorts less P (sortFour less a b c d) [a, b, c, d] := by
  rcases List.forall_mem_append.mp h with ⟨hab, hcd⟩
  have hfirst := sortTwo_sorts order hab
  have hsecond := sortTwo_sorts order hcd
  have hmerged := hfirst.mergeUp order hsecond hab hcd
  rw [← sortPairs_eq_mergeUp order (hfirst.forall_mem hab)
    (hsecond.forall_mem hcd) hfirst.ordered hsecond.ordered] at hmerged
  exact hmerged

def SortsFront (less : α → α → Bool) (P : α → Prop) (parts : List α × List α)
    (xs : List α) : Prop :=
  ∃ front, front ++ parts.2 = xs ∧ Sorts less P parts.1 front

theorem sortsFront_nil (xs : List α) : SortsFront less P ([], xs) xs :=
  ⟨[], rfl, Ordered.sorts List.Pairwise.nil⟩

theorem firstFour_sortsFront (order : WeakOrder less P) {xs : List α}
    (hxs : ∀ x ∈ xs, P x) : SortsFront less P (firstFour less xs) xs := by
  unfold firstFour
  split
  · next a b c d rest =>
    refine ⟨[a, b, c, d], rfl, sortFour_sorts order fun x hx => hxs x ?_⟩
    exact List.mem_append_left rest hx
  · exact sortsFront_nil xs

theorem firstEight_sortsFront (order : WeakOrder less P) {xs : List α}
    (hxs : ∀ x ∈ xs, P x) : SortsFront less P (firstEight less xs) xs := by
  rcases firstFour_sortsFront order hxs with ⟨front, hfront, hsorts⟩
  rw [← hfront, List.forall_mem_append] at hxs
  rcases firstFour_sortsFront order hxs.2 with ⟨back, hback, hsorts'⟩
  rw [← hback, List.forall_mem_append] at hxs
  refine ⟨front ++ back, ?_, hsorts.mergeBothEnds order hsorts' hxs.1 hxs.2.1⟩
  exact (List.append_assoc _ _ _).trans
    ((congrArg (front ++ ·) hback).trans hfront)

theorem firstOfHalf_sortsFront (order : WeakOrder less P) (length : Nat)
    {xs : List α} (hxs : ∀ x ∈ xs, P x) :
    SortsFront less P (firstOfHalf less length xs) xs := by
  unfold firstOfHalf
  split
  · exact firstEight_sortsFront order hxs
  · split
    · exact firstFour_sortsFront order hxs
    · exact sortsFront_nil xs

theorem sortHalf_sorts (order : WeakOrder less P) (length : Nat) {xs : List α}
    (hxs : ∀ x ∈ xs, P x) : Sorts less P (sortHalf less length xs) xs := by
  rcases firstOfHalf_sortsFront order length hxs with ⟨front, hfront, hsorts⟩
  rw [← hfront, List.forall_mem_append] at hxs
  have hall := (insertAll_sorts order (hsorts.forall_mem hxs.1) hxs.2
    hsorts.ordered).of_keeps (hsorts.toKeeps.append_right _)
  rw [hfront] at hall
  exact hall

theorem sortBlock_sorts (order : WeakOrder less P) {xs : List α}
    (hxs : ∀ x ∈ xs, P x) : Sorts less P (sortBlock less xs) xs := by
  have hfront : ∀ x ∈ xs.take (xs.length / 2), P x := fun x hx =>
    hxs x (List.mem_of_mem_take hx)
  have hback : ∀ x ∈ xs.drop (xs.length / 2), P x := fun x hx =>
    hxs x (List.mem_of_mem_drop hx)
  have hall := (sortHalf_sorts order xs.length hfront).mergeBothEnds order
    (sortHalf_sorts order xs.length hback) hfront hback
  rw [List.take_append_drop] at hall
  exact hall

end Sorting
end CudaProfile
