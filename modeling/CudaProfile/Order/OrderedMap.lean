/-!
# Ordered maps

A finite map is the list of its entries in ascending order of keys. The order
is part of the type, so two maps with the same entries are the same map.
-/

namespace CudaProfile

open Std

/-- A finite map, kept as its entries in strictly ascending order of keys. -/
structure OrderedMap (κ α : Type) [Ord κ] where
  entries : List (κ × α)
  ascending : entries.Pairwise fun a b => compare a.1 b.1 = .lt

namespace OrderedMap

variable {κ α : Type} [Ord κ]

theorem ext {m m' : OrderedMap κ α} (h : m.entries = m'.entries) : m = m' := by
  cases m
  cases m'
  simp_all

instance [DecidableEq κ] [DecidableEq α] : DecidableEq (OrderedMap κ α) :=
  fun m m' => decidable_of_iff (m.entries = m'.entries)
    ⟨ext, fun h => h ▸ rfl⟩

/-! ## Reading -/

def empty : OrderedMap κ α :=
  ⟨[], List.Pairwise.nil⟩

instance : Inhabited (OrderedMap κ α) :=
  ⟨empty⟩

instance : EmptyCollection (OrderedMap κ α) :=
  ⟨empty⟩

def find? (key : κ) : List (κ × α) → Option α
  | [] => none
  | (k, v) :: rest => if compare key k = .eq then some v else find? key rest

def get? (m : OrderedMap κ α) (key : κ) : Option α :=
  find? key m.entries

def contains (m : OrderedMap κ α) (key : κ) : Bool :=
  (m.get? key).isSome

def keys (m : OrderedMap κ α) : List κ :=
  m.entries.map Prod.fst

def values (m : OrderedMap κ α) : List α :=
  m.entries.map Prod.snd

def size (m : OrderedMap κ α) : Nat :=
  m.entries.length

def isEmpty (m : OrderedMap κ α) : Bool :=
  m.entries.isEmpty

def first? (m : OrderedMap κ α) : Option (κ × α) :=
  m.entries.head?

def last? (m : OrderedMap κ α) : Option (κ × α) :=
  m.entries.getLast?

/-! ## Writing -/

def insertEntry (key : κ) (value : α) : List (κ × α) → List (κ × α)
  | [] => [(key, value)]
  | (k, v) :: rest =>
      match compare key k with
      | .lt => (key, value) :: (k, v) :: rest
      | .eq => (key, value) :: rest
      | .gt => (k, v) :: insertEntry key value rest

theorem mem_insertEntry {key : κ} {value : α} {entries : List (κ × α)}
    {e : κ × α} (h : e ∈ insertEntry key value entries) :
    e = (key, value) ∨ e ∈ entries := by
  induction entries with
  | nil =>
      simpa [insertEntry] using h
  | cons head rest ih =>
      unfold insertEntry at h
      split at h
      · simpa using h
      · simp only [List.mem_cons] at h ⊢
        exact h.imp_right Or.inr
      · simp only [List.mem_cons] at h ⊢
        rcases h with h | h
        · exact Or.inr (Or.inl h)
        · exact (ih h).imp_right Or.inr

theorem insertEntry_ascending [TransOrd κ] {key : κ} {value : α}
    {entries : List (κ × α)}
    (h : entries.Pairwise fun a b => compare a.1 b.1 = .lt) :
    (insertEntry key value entries).Pairwise
      fun a b => compare a.1 b.1 = .lt := by
  induction entries with
  | nil =>
      exact List.pairwise_singleton _ _
  | cons head rest ih =>
      have hrest := List.pairwise_cons.1 h
      unfold insertEntry
      split
      · next hlt =>
        refine List.pairwise_cons.2 ⟨?_, h⟩
        intro e he
        rcases List.mem_cons.1 he with rfl | he
        · exact hlt
        · exact TransCmp.lt_trans hlt (hrest.1 e he)
      · next heq =>
        refine List.pairwise_cons.2 ⟨?_, hrest.2⟩
        intro e he
        exact TransCmp.lt_of_eq_of_lt heq (hrest.1 e he)
      · next hgt =>
        refine List.pairwise_cons.2 ⟨?_, ih hrest.2⟩
        intro e he
        rcases mem_insertEntry he with rfl | he
        · exact OrientedCmp.lt_of_gt hgt
        · exact hrest.1 e he

def insert [TransOrd κ] (m : OrderedMap κ α) (key : κ) (value : α) :
    OrderedMap κ α :=
  ⟨insertEntry key value m.entries, insertEntry_ascending m.ascending⟩

def alter [TransOrd κ] (m : OrderedMap κ α) (key : κ) (f : Option α → α) :
    OrderedMap κ α :=
  m.insert key (f (m.get? key))

def erase (m : OrderedMap κ α) (key : κ) : OrderedMap κ α :=
  ⟨m.entries.filter fun e => compare key e.1 ≠ .eq,
    m.ascending.filter _⟩

/-- The map of a list of entries; of two entries with one key the later
counts. -/
def ofList [TransOrd κ] (entries : List (κ × α)) : OrderedMap κ α :=
  entries.foldl (fun m e => m.insert e.1 e.2) empty

/-- The map of a list of entries; of two entries with one key the earlier
counts. Entries that ascend take one step each. -/
def ofAscending [TransOrd κ] (entries : List (κ × α)) : OrderedMap κ α :=
  entries.foldr (fun e m => m.insert e.1 e.2) empty

end OrderedMap
end CudaProfile
