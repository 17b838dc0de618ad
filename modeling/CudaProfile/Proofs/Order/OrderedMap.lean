import Mathlib.Data.List.Induction
import Mathlib.Data.List.Nodup
import CudaProfile.Order.OrderedMap
/-!
# Laws of ordered maps

Reading after writing, and the keys as a list without repetition. Both hold
where only equal keys compare as equal.
-/

namespace CudaProfile
namespace OrderedMap

open Std

variable {κ α β : Type} [Ord κ]

/-! ## Reading after writing -/

@[simp] theorem get?_empty (key : κ) : (∅ : OrderedMap κ α).get? key = none :=
  rfl

variable [LawfulEqOrd κ] [DecidableEq κ]

theorem find?_cons (key : κ) (head : κ × α) (rest : List (κ × α)) :
    find? key (head :: rest) =
      if key = head.1 then some head.2 else find? key rest := by
  rw [find?]
  by_cases h : key = head.1
  · rw [if_pos h, if_pos (Std.compare_eq_iff_eq.mpr h)]
  · rw [if_neg h, if_neg fun heq => h (Std.compare_eq_iff_eq.mp heq)]

theorem find?_insertEntry (key other : κ) (value : α)
    (entries : List (κ × α)) :
    find? other (insertEntry key value entries) =
      if other = key then some value else find? other entries := by
  induction entries with
  | nil =>
      exact find?_cons other (key, value) []
  | cons head rest ih =>
      unfold insertEntry
      split
      · exact find?_cons other (key, value) (head :: rest)
      · next heq =>
        rw [find?_cons, find?_cons, ← Std.compare_eq_iff_eq.mp heq]
        by_cases h : other = key
        · rw [if_pos h, if_pos h]
        · rw [if_neg h, if_neg h, if_neg h]
      · next hgt =>
        have hne : key ≠ head.1 := by
          intro heq
          rw [Std.compare_eq_iff_eq.mpr heq] at hgt
          cases hgt
        rw [find?_cons, find?_cons, ih]
        by_cases h : other = head.1
        · rw [if_pos h, if_pos h, if_neg (h ▸ hne.symm)]
        · rw [if_neg h, if_neg h]

theorem get?_insert [TransOrd κ] (m : OrderedMap κ α) (key other : κ)
    (value : α) :
    (m.insert key value).get? other =
      if other = key then some value else m.get? other :=
  find?_insertEntry key other value m.entries

theorem get?_alter [TransOrd κ] (m : OrderedMap κ α) (key other : κ)
    (f : Option α → α) :
    (m.alter key f).get? other =
      if other = key then some (f (m.get? key)) else m.get? other :=
  get?_insert m key other _

theorem find?_filter (key other : κ) (entries : List (κ × α)) :
    find? other (entries.filter fun e => compare key e.1 ≠ .eq) =
      if other = key then none else find? other entries := by
  induction entries with
  | nil =>
      simp [find?]
  | cons head rest ih =>
      by_cases hhead : key = head.1
      · rw [List.filter_cons_of_neg (by simp [hhead]), ih, find?_cons, ← hhead]
        by_cases h : other = key
        · rw [if_pos h, if_pos h]
        · rw [if_neg h, if_neg h, if_neg h]
      · rw [List.filter_cons_of_pos (by simp [hhead]), find?_cons, ih,
          find?_cons]
        by_cases h : other = head.1
        · rw [if_pos h, if_pos h, if_neg (h ▸ Ne.symm hhead)]
        · rw [if_neg h, if_neg h]

theorem get?_erase (m : OrderedMap κ α) (key other : κ) :
    (m.erase key).get? other = if other = key then none else m.get? other :=
  find?_filter key other m.entries

/-! ## Entries and keys -/

theorem find?_eq_some_iff {entries : List (κ × α)}
    (h : entries.Pairwise fun a b => compare a.1 b.1 = .lt) {key : κ}
    {value : α} :
    find? key entries = some value ↔ (key, value) ∈ entries := by
  induction entries with
  | nil =>
      simp [find?]
  | cons head rest ih =>
      rcases List.pairwise_cons.mp h with ⟨hhead, hrest⟩
      rw [find?_cons, List.mem_cons, ← ih hrest]
      by_cases hkey : key = head.1
      · rw [if_pos hkey]
        constructor
        · intro hvalue
          cases hvalue
          exact Or.inl (Prod.ext hkey rfl)
        · intro hmem
          rcases hmem with rfl | hlater
          · rfl
          · have hlt := hhead _ ((ih hrest).mp hlater)
            rw [Std.compare_eq_iff_eq.mpr hkey.symm] at hlt
            cases hlt
      · rw [if_neg hkey]
        constructor
        · exact Or.inr
        · intro hmem
          rcases hmem with rfl | hlater
          · exact absurd rfl hkey
          · exact hlater

theorem get?_eq_some_iff {m : OrderedMap κ α} {key : κ} {value : α} :
    m.get? key = some value ↔ (key, value) ∈ m.entries :=
  find?_eq_some_iff m.ascending

theorem mem_keys_iff {m : OrderedMap κ α} {key : κ} :
    key ∈ m.keys ↔ ∃ value, m.get? key = some value := by
  simp [keys, get?_eq_some_iff]

omit [DecidableEq κ] in
theorem nodup_keys (m : OrderedMap κ α) : m.keys.Nodup := by
  unfold keys
  rw [List.Nodup, List.pairwise_map]
  apply m.ascending.imp
  intro a b hlt heq
  rw [Std.compare_eq_iff_eq.mpr heq] at hlt
  cases hlt

omit [LawfulEqOrd κ] [DecidableEq κ] in
theorem ascending_keys (m : OrderedMap κ α) :
    m.keys.Pairwise fun a b => compare a b = .lt :=
  List.pairwise_map.mpr m.ascending

theorem filter_keys [TransOrd κ] {m : OrderedMap κ α} {m' : OrderedMap κ β}
    (h : ∀ key ∈ m'.keys, key ∈ m.keys) :
    (m.keys.filter fun key => key ∈ m'.keys) = m'.keys := by
  have hperm : (m.keys.filter fun key => key ∈ m'.keys).Perm m'.keys := by
    apply (List.perm_ext_iff_of_nodup (m.nodup_keys.filter _)
      m'.nodup_keys).mpr
    intro key
    rw [List.mem_filter, decide_eq_true_iff]
    exact and_iff_right_of_imp (h key)
  refine hperm.eq_of_pairwise ?_ (m.ascending_keys.filter _) m'.ascending_keys
  intro a b _ _ hlt hgt
  rw [OrientedCmp.gt_of_lt hgt] at hlt
  cases hlt

theorem keys_eq_of_mem_iff [TransOrd κ] {m : OrderedMap κ α}
    {m' : OrderedMap κ β} (h : ∀ key, key ∈ m.keys ↔ key ∈ m'.keys) :
    m.keys = m'.keys := by
  have hall : (m.keys.filter fun key => key ∈ m'.keys) = m.keys :=
    List.filter_eq_self.mpr fun key hkey => decide_eq_true ((h key).mp hkey)
  rw [← hall]
  exact filter_keys fun key hkey => (h key).mpr hkey

/-! ## Maps from their entries -/

omit [LawfulEqOrd κ] [DecidableEq κ] in
theorem insertEntry_of_lt [TransOrd κ] {key : κ} {value : α}
    {entries : List (κ × α)}
    (h : ∀ e ∈ entries, compare e.1 key = .lt) :
    insertEntry key value entries = entries ++ [(key, value)] := by
  induction entries with
  | nil =>
      rfl
  | cons head rest ih =>
      rcases List.forall_mem_cons.mp h with ⟨hhead, hrest⟩
      unfold insertEntry
      rw [OrientedCmp.gt_of_lt hhead, List.cons_append, ih hrest]

omit [LawfulEqOrd κ] [DecidableEq κ] in
theorem entries_foldl_insert [TransOrd κ] {m : OrderedMap κ α}
    {entries : List (κ × α)}
    (h : (m.entries ++ entries).Pairwise fun a b => compare a.1 b.1 = .lt) :
    (entries.foldl (fun m e => m.insert e.1 e.2) m).entries =
      m.entries ++ entries := by
  induction entries generalizing m with
  | nil =>
      exact (List.append_nil _).symm
  | cons head rest ih =>
      have hnext : (m.insert head.1 head.2).entries = m.entries ++ [head] := by
        apply insertEntry_of_lt
        intro e he
        exact (List.pairwise_append.mp h).2.2 e he head List.mem_cons_self
      rw [List.append_cons, ← hnext] at h
      rw [List.foldl_cons, ih h, hnext, ← List.append_cons]

omit [LawfulEqOrd κ] [DecidableEq κ] in
theorem ofList_concat [TransOrd κ] (entries : List (κ × α)) (e : κ × α) :
    ofList (entries ++ [e]) = (ofList entries).insert e.1 e.2 := by
  unfold ofList
  rw [List.foldl_append]
  rfl

theorem get?_ofList_append [TransOrd κ] (entries later : List (κ × α))
    (key : κ) :
    (ofList (entries ++ later)).get? key =
      ((ofList later).get? key).or ((ofList entries).get? key) := by
  induction later using List.reverseRecOn with
  | nil =>
      rw [List.append_nil]
      rfl
  | append_singleton later e ih =>
      rw [← List.append_assoc, ofList_concat, ofList_concat, get?_insert,
        get?_insert, ih]
      by_cases h : key = e.1
      · rw [if_pos h, if_pos h, Option.some_or]
      · rw [if_neg h, if_neg h]

theorem get?_ofList_eq_none_iff [TransOrd κ] {entries : List (κ × α)}
    {key : κ} :
    (ofList entries).get? key = none ↔ key ∉ entries.map Prod.fst := by
  induction entries using List.reverseRecOn with
  | nil =>
      exact iff_of_true rfl List.not_mem_nil
  | append_singleton entries e ih =>
      rw [ofList_concat, get?_insert, List.map_append, List.mem_append, not_or,
        ← ih, List.map_singleton, List.mem_singleton]
      by_cases h : key = e.1
      · simp [h]
      · simp [h]

theorem mem_of_get?_ofList [TransOrd κ] {entries : List (κ × α)} {key : κ}
    {value : α} (h : (ofList entries).get? key = some value) :
    (key, value) ∈ entries := by
  induction entries using List.reverseRecOn with
  | nil =>
      cases h
  | append_singleton entries e ih =>
      rw [ofList_concat, get?_insert] at h
      split at h
      · next hkey =>
        cases h
        rw [hkey]
        exact List.mem_append_right entries (List.mem_singleton_self e)
      · exact List.mem_append_left [e] (ih h)

omit [LawfulEqOrd κ] [DecidableEq κ] in
theorem entries_ofAscending [TransOrd κ] {entries : List (κ × α)}
    (h : entries.Pairwise fun a b => compare a.1 b.1 = .lt) :
    (ofAscending entries).entries = entries := by
  induction entries with
  | nil =>
      rfl
  | cons first rest ih =>
      rcases List.pairwise_cons.mp h with ⟨hfirst, hrest⟩
      change insertEntry first.1 first.2 (ofAscending rest).entries = _
      rw [ih hrest]
      cases rest with
      | nil =>
          rfl
      | cons second others =>
          unfold insertEntry
          rw [hfirst second List.mem_cons_self]

theorem ext_get? [TransOrd κ] {m m' : OrderedMap κ α}
    (h : ∀ key value, m.get? key = some value ↔ m'.get? key = some value) :
    m = m' := by
  apply ext
  have hperm : m.entries.Perm m'.entries := by
    apply (List.perm_ext_iff_of_nodup (List.Nodup.of_map _ m.nodup_keys)
      (List.Nodup.of_map _ m'.nodup_keys)).mpr
    intro e
    rw [← get?_eq_some_iff, ← get?_eq_some_iff]
    exact h e.1 e.2
  refine hperm.eq_of_pairwise ?_ m.ascending m'.ascending
  intro a b _ _ hlt hgt
  rw [OrientedCmp.gt_of_lt hgt] at hlt
  cases hlt

omit [LawfulEqOrd κ] [DecidableEq κ] in
theorem ofList_entries [TransOrd κ] (m : OrderedMap κ α) :
    ofList m.entries = m := by
  apply ext
  exact entries_foldl_insert (m := empty) m.ascending

end OrderedMap
end CudaProfile
