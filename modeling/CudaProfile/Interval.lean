/-!
# Closed intervals of 64-bit words

An interval is given by its two bounds and is empty exactly when the upper one
is below the lower one. Empty intervals keep their bounds, but all of them are
equivalent and come first in the order.
-/

namespace CudaProfile

/-- The closed interval of the words from `lo` to `hi`. -/
structure Interval where
  lo : UInt64
  hi : UInt64
deriving DecidableEq

namespace Interval

def maxWord : UInt64 :=
  0xFFFFFFFFFFFFFFFF

def point (value : UInt64) : Interval :=
  ⟨value, value⟩

/-- The empty interval that stands for all of them. -/
def empty : Interval :=
  ⟨maxWord, 0⟩

def full : Interval :=
  ⟨0, maxWord⟩

theorem max_eq (a b : UInt64) : max a b = if a ≤ b then b else a :=
  rfl

theorem min_eq (a b : UInt64) : min a b = if a ≤ b then a else b :=
  rfl

theorem le_max (a b : UInt64) : a ≤ max a b := by
  rw [max_eq]
  grind

theorem min_le (a b : UInt64) : min a b ≤ a := by
  rw [min_eq]
  grind

def isEmpty (i : Interval) : Bool :=
  i.hi < i.lo

def size (i : Interval) : Nat :=
  if i.isEmpty then 0 else i.hi.toNat - i.lo.toNat + 1

/-- The number of words in the interval; the full interval, whose size is no
word, has the greatest word. -/
def width (i : Interval) : UInt64 :=
  if i.isEmpty then 0
  else if i.hi - i.lo = maxWord then maxWord
  else i.hi - i.lo + 1

def contains (i : Interval) (value : UInt64) : Bool :=
  i.lo ≤ value && value ≤ i.hi

def containsInterval (i other : Interval) : Bool :=
  other.isEmpty || (i.contains other.lo && i.contains other.hi)

def hull (i other : Interval) : Interval :=
  if i.isEmpty then other
  else if other.isEmpty then i
  else ⟨min i.lo other.lo, max i.hi other.hi⟩

/-- The words in both; without any, the standing empty interval. -/
def meet (i other : Interval) : Interval :=
  if i.isEmpty || other.isEmpty then empty
  else
    let common : Interval := ⟨max i.lo other.lo, min i.hi other.hi⟩
    if common.isEmpty then empty else common

def intersects (i other : Interval) : Bool :=
  !(i.meet other).isEmpty

def equivalent (i other : Interval) : Bool :=
  if i.isEmpty || other.isEmpty then i.isEmpty && other.isEmpty
  else i = other

/-- By lower and then by upper bound; the empty intervals come first. -/
def order (i other : Interval) : Ordering :=
  match i.isEmpty, other.isEmpty with
  | true, true => .eq
  | true, false => .lt
  | false, true => .gt
  | false, false => (compare i.lo other.lo).then (compare i.hi other.hi)

theorem order_ne_gt_iff (i j : Interval) :
    i.order j ≠ .gt ↔
      i.hi < i.lo ∨
        (j.lo ≤ j.hi ∧ (i.lo < j.lo ∨ i.lo = j.lo ∧ i.hi ≤ j.hi)) := by
  unfold order isEmpty
  by_cases hi : i.hi < i.lo <;> by_cases hj : j.hi < j.lo
  · simp [hi, hj]
  · simp [hi, hj]
  · simp only [hi, hj, decide_false, decide_true]
    grind
  · simp only [hi, hj, decide_false, ne_eq, Ordering.then_eq_gt,
      Std.compare_eq_gt, Std.compare_eq_iff_eq]
    grind

theorem order_trans {i j k : Interval} (hij : i.order j ≠ .gt)
    (hjk : j.order k ≠ .gt) : i.order k ≠ .gt := by
  rw [order_ne_gt_iff] at *
  grind

theorem order_total (i j : Interval) :
    i.order j ≠ .gt ∨ j.order i ≠ .gt := by
  rw [order_ne_gt_iff, order_ne_gt_iff]
  grind

/-- An order under which intervals that overlap are equal: below means to end
before the other begins. -/
def overlapOrder (i other : Interval) : Ordering :=
  if i.hi < other.lo then .lt
  else if other.hi < i.lo then .gt
  else .eq

/-! ## Half-open form

Records carry the first word and the one after the last; after the greatest
word comes zero.
-/

structure HalfOpen where
  start : UInt64
  stop : UInt64
deriving DecidableEq

def toHalfOpen (i : Interval) : HalfOpen :=
  ⟨i.lo, i.hi + 1⟩

def ofHalfOpen (record : HalfOpen) : Interval :=
  ⟨record.start, record.stop - 1⟩

theorem ofHalfOpen_toHalfOpen (i : Interval) :
    ofHalfOpen i.toHalfOpen = i := by
  simp [ofHalfOpen, toHalfOpen]

theorem toHalfOpen_ofHalfOpen (record : HalfOpen) :
    (ofHalfOpen record).toHalfOpen = record := by
  simp [ofHalfOpen, toHalfOpen]

def render (bound : UInt64 → String) (i : Interval) : String :=
  if i.isEmpty then "[]"
  else "[" ++ bound i.lo ++ ", " ++ bound i.hi ++ "]"

end Interval
end CudaProfile
