import Mathlib
/-!
# Lists parted by keys, and read item by item

A list that is regrouped by the keys of its items keeps all of them, and those
of one key in their order. If there are items of a kind then one is the last.
The parts a list begins with are those it began with before its last item, and
itself. A computation that may fail gives a list of values if it gives one for
every item, and otherwise the first error.
-/

namespace CudaProfile

/-! ## Parting a list by keys -/

theorem perm_flatMap_filter {α κ : Type} [DecidableEq κ] (destination : α → κ)
    {keys : List κ} (hkeys : keys.Nodup) (items : List α) :
    (keys.flatMap fun key => items.filter fun a => destination a = key).Perm
      (items.filter fun a => destination a ∈ keys) := by
  induction keys with
  | nil =>
      simp
  | cons key rest ih =>
      rcases List.nodup_cons.mp hkeys with ⟨hkey, hrest⟩
      have hparted := List.filter_append_perm (fun a => destination a = key)
        (items.filter fun a => destination a ∈ key :: rest)
      rw [List.filter_filter, List.filter_filter] at hparted
      have hfirst : ∀ a, (decide (destination a = key) &&
          decide (destination a ∈ key :: rest)) =
            decide (destination a = key) := by
        intro a
        by_cases h : destination a = key
        · simp [h]
        · simp [h]
      have hothers : ∀ a, (!decide (destination a = key) &&
          decide (destination a ∈ key :: rest)) =
            decide (destination a ∈ rest) := by
        intro a
        by_cases h : destination a = key
        · simp [h, hkey]
        · simp [h]
      simp only [hfirst, hothers] at hparted
      rw [List.flatMap_cons]
      exact ((ih hrest).append_left _).trans hparted

theorem perm_flatMap_filter_of_mem {α κ : Type} [DecidableEq κ]
    (destination : α → κ) {keys : List κ} (hkeys : keys.Nodup) {items : List α}
    (h : ∀ a ∈ items, destination a ∈ keys) :
    (keys.flatMap fun key => items.filter fun a => destination a = key).Perm
      items := by
  have hall : (items.filter fun a => destination a ∈ keys) = items := by
    apply List.filter_eq_self.mpr
    intro a ha
    exact decide_eq_true (h a ha)
  have hparted := perm_flatMap_filter destination hkeys items
  rw [hall] at hparted
  exact hparted

theorem filter_flatMap_key {α κ : Type} [DecidableEq κ] (destination : α → κ)
    {keys : List κ} (hkeys : keys.Nodup) {items : κ → List α}
    (h : ∀ key ∈ keys, ∀ a ∈ items key, destination a = key) (key : κ) :
    ((keys.flatMap items).filter fun a => destination a = key) =
      if key ∈ keys then items key else [] := by
  induction keys with
  | nil =>
      rfl
  | cons first rest ih =>
      rcases List.nodup_cons.mp hkeys with ⟨hfirst, hrest⟩
      rcases List.forall_mem_cons.mp h with ⟨hitems, hothers⟩
      rw [List.flatMap_cons, List.filter_append, ih hrest hothers]
      by_cases hsame : key = first
      · subst hsame
        have hall : ((items key).filter fun a => destination a = key) =
            items key :=
          List.filter_eq_self.mpr fun a ha => decide_eq_true (hitems a ha)
        rw [hall, if_neg hfirst, if_pos List.mem_cons_self, List.append_nil]
      · have hnone : ((items first).filter fun a => destination a = key) =
            [] := by
          apply List.filter_eq_nil_iff.mpr
          intro a ha heq
          exact hsame ((of_decide_eq_true heq).symm.trans (hitems a ha))
        rw [hnone, List.nil_append]
        exact if_congr (List.mem_cons.trans (or_iff_right hsame)).symm rfl rfl

theorem flatMap_filter {α β : Type} {f : α → List β} {p : α → Bool}
    (h : ∀ a, p a = false → f a = []) (items : List α) :
    (items.filter p).flatMap f = items.flatMap f := by
  induction items with
  | nil =>
      rfl
  | cons a rest ih =>
      cases hp : p a with
      | false =>
          rw [List.filter_cons_of_neg (by simp [hp]), ih, List.flatMap_cons,
            h a hp, List.nil_append]
      | true =>
          rw [List.filter_cons_of_pos hp, List.flatMap_cons, ih,
            List.flatMap_cons]

/-! ## The last item of a kind -/

theorem exists_filterMap_last {α β : Type} {f : α → Option β} {items : List α}
    (h : items.filterMap f ≠ []) :
    ∃ before a rest b, items = before ++ a :: rest ∧ f a = some b ∧
      rest.filterMap f = [] := by
  have hlast := (List.dropLast_append_getLast h).symm
  rcases List.filterMap_eq_append_iff.mp hlast with
    ⟨before, later, rfl, _, hlater⟩
  rcases List.filterMap_eq_cons_iff.mp hlater with
    ⟨between, a, rest, rfl, _, ha, hrest⟩
  exact ⟨before ++ between, a, rest, _, (List.append_assoc _ _ _).symm, ha,
    hrest⟩

/-! ## Parts that end with an item -/

section Prefixes

variable {α : Type} {P : List α → α → Prop}

theorem exists_prefix_append {before : List α} {a : α} :
    (∃ earlier last, earlier ++ [last] <+: before ++ [a] ∧ P earlier last) ↔
      (∃ earlier last, earlier ++ [last] <+: before ∧ P earlier last) ∨
        P before a := by
  constructor
  · intro h
    rcases h with ⟨earlier, last, hprefix, hlast⟩
    rcases List.prefix_concat_iff.mp hprefix with heq | hprefix
    · rcases List.append_inj' heq rfl with ⟨rfl, hsame⟩
      cases hsame
      exact Or.inr hlast
    · exact Or.inl ⟨earlier, last, hprefix, hlast⟩
  · intro h
    rcases h with ⟨earlier, last, hprefix, hlast⟩ | hlast
    · exact ⟨earlier, last, hprefix.trans (List.prefix_append _ _), hlast⟩
    · exact ⟨before, a, List.prefix_refl _, hlast⟩

theorem not_exists_prefix_nil :
    ¬∃ earlier last, earlier ++ [last] <+: ([] : List α) ∧ P earlier last := by
  intro h
  rcases h with ⟨earlier, last, hprefix, _⟩
  exact List.append_ne_nil_of_right_ne_nil earlier (List.cons_ne_nil last [])
    (List.prefix_nil.mp hprefix)

end Prefixes

/-! ## Lists related item by item -/

theorem exists_of_forall₂ {α β : Type} {R : α → β → Prop} {items : List α}
    {values : List β} (h : List.Forall₂ R items values) {b : β}
    (hb : b ∈ values) : ∃ a ∈ items, R a b := by
  induction h with
  | nil =>
      cases hb
  | @cons a _ _ _ hfirst _ ih =>
      rcases List.mem_cons.mp hb with rfl | hb
      · exact ⟨a, List.mem_cons_self, hfirst⟩
      · rcases ih hb with ⟨c, hc, hrest⟩
        exact ⟨c, List.mem_cons_of_mem a hc, hrest⟩

theorem forall₂_imp_of_mem {α β : Type} {R S : α → β → Prop} {items : List α}
    {values : List β} (h : List.Forall₂ R items values)
    (himp : ∀ a ∈ items, ∀ b ∈ values, R a b → S a b) :
    List.Forall₂ S items values := by
  induction h with
  | nil =>
      exact .nil
  | @cons a b _ _ hfirst _ ih =>
      exact .cons (himp a List.mem_cons_self b List.mem_cons_self hfirst)
        (ih fun c hc d hd => himp c (List.mem_cons_of_mem a hc) d
          (List.mem_cons_of_mem b hd))

theorem forall₂_of_forall_mem {α β : Type} {R : α → β → Prop} {items : List α}
    {values : List β} (hlength : items.length = values.length)
    (h : ∀ a ∈ items, ∀ b ∈ values, R a b) :
    List.Forall₂ R items values :=
  List.forall₂_iff_zip.mpr ⟨hlength, fun hzip =>
    h _ (List.of_mem_zip hzip).1 _ (List.of_mem_zip hzip).2⟩

theorem forall₂_filter {α β : Type} {R : α → β → Prop} {p : α → Bool}
    {q : β → Bool} {items : List α} {values : List β}
    (h : List.Forall₂ R items values)
    (hkind : ∀ a ∈ items, ∀ b ∈ values, R a b → p a = q b) :
    List.Forall₂ R (items.filter p) (values.filter q) := by
  have hboth : List.Forall₂ (fun a b => R a b ∧ p a = q b) items values :=
    forall₂_imp_of_mem h fun a ha b hb hrel =>
      ⟨hrel, hkind a ha b hb hrel⟩
  have hfiltered : List.Forall₂ (fun a b => R a b ∧ p a = q b)
      (items.filter p) (values.filter q) :=
    List.rel_filter (fun _ _ hrel => Bool.eq_iff_iff.mp hrel.2) hboth
  exact hfiltered.imp fun _ _ hrel => hrel.1

/-! ## Lists with one item changed -/

theorem of_mem_modify {α : Type} {items : List α} {i : Nat} {f : α → α} {a : α}
    (h : a ∈ items.modify i f) : a ∈ items ∨ ∃ old ∈ items, a = f old := by
  rcases List.mem_iff_getElem?.mp h with ⟨j, hj⟩
  rw [List.getElem?_modify, Option.map_eq_map] at hj
  rcases Option.map_eq_some_iff.mp hj with ⟨old, hold, hnew⟩
  split at hnew
  · exact Or.inr ⟨old, List.mem_of_getElem? hold, hnew.symm⟩
  · exact Or.inl (hnew ▸ List.mem_of_getElem? hold)

/-- A changed item that was not chosen and is not now leaves the chosen items
with their places as they were. -/
theorem filter_zipIdx_modify {α : Type} {p : α → Bool} {f : α → α}
    {items : List α} {i : Nat}
    (h : ∀ a, items[i]? = some a → p a = false ∧ p (f a) = false)
    (start : Nat) :
    (((items.modify i f).zipIdx start).filter fun e => p e.1) =
      (items.zipIdx start).filter fun e => p e.1 := by
  induction items generalizing i start with
  | nil =>
      rw [List.modify_nil]
  | cons a rest ih =>
      cases i with
      | zero =>
          rcases h a rfl with ⟨hold, hnew⟩
          simp [hold, hnew]
      | succ i =>
          simp only [List.modify_succ_cons, List.zipIdx_cons, List.filter_cons]
          rw [ih h]

/-! ## Computations that may fail -/

theorem bind_eq_ok_iff {ε α β : Type} {x : Except ε α} {f : α → Except ε β}
    {b : β} : (x >>= f) = .ok b ↔ ∃ a, x = .ok a ∧ f a = .ok b := by
  cases x with
  | error error =>
      constructor
      · intro h
        cases h
      · intro hbind
        rcases hbind with ⟨a, h, _⟩
        cases h
  | ok a =>
      constructor
      · intro h
        exact ⟨a, rfl, h⟩
      · intro hbind
        rcases hbind with ⟨_, heq, h⟩
        cases heq
        exact h

theorem mapM_eq_ok {ε α β : Type} {f : α → Except ε β} {g : α → β}
    {items : List α} (h : ∀ a ∈ items, f a = .ok (g a)) :
    items.mapM f = .ok (items.map g) := by
  induction items with
  | nil =>
      rfl
  | cons a rest ih =>
      rcases List.forall_mem_cons.mp h with ⟨ha, hrest⟩
      rw [List.mapM_cons, ha, ih hrest]
      rfl

theorem mapM_map_eq_ok {ε α β : Type} {f : α → β} {g : β → Except ε α}
    {items : List α} (h : ∀ a ∈ items, g (f a) = .ok a) :
    (items.map f).mapM g = .ok items := by
  have hvalues : items.mapM (g ∘ f) = .ok (items.map id) := mapM_eq_ok h
  rw [List.map_id] at hvalues
  rw [List.mapM_map]
  exact hvalues

theorem forall₂_of_mapM_eq_ok {ε α β : Type} {f : α → Except ε β}
    {items : List α} {values : List β} (h : items.mapM f = .ok values) :
    List.Forall₂ (fun a b => f a = .ok b) items values := by
  induction items generalizing values with
  | nil =>
      cases h
      exact .nil
  | cons a rest ih =>
      rw [List.mapM_cons] at h
      rcases bind_eq_ok_iff.mp h with ⟨first, hfirst, hmore⟩
      rcases bind_eq_ok_iff.mp hmore with ⟨others, hothers, hvalues⟩
      cases hvalues
      exact .cons hfirst (ih hothers)

theorem exists_of_mapM_eq_ok {ε α β : Type} {f : α → Except ε β}
    {items : List α} {values : List β} (h : items.mapM f = .ok values) {b : β}
    (hb : b ∈ values) : ∃ a ∈ items, f a = .ok b :=
  exists_of_forall₂ (forall₂_of_mapM_eq_ok h) hb

def failure? {ε α : Type} : Except ε α → Option ε
  | .ok _ => none
  | .error error => some error

theorem failure?_eq_some_iff {ε α : Type} {x : Except ε α} {error : ε} :
    failure? x = some error ↔ x = .error error := by
  cases x with
  | ok a =>
      simp [failure?]
  | error other =>
      simp [failure?]

theorem failure?_bind {ε α β : Type} (x : Except ε α) (f : α → Except ε β) :
    failure? (x >>= f) =
      match x with
      | .ok a => failure? (f a)
      | .error error => some error := by
  cases x with
  | ok a =>
      rfl
  | error error =>
      rfl

theorem failure?_mapM {ε α β : Type} (f : α → Except ε β) (items : List α) :
    failure? (items.mapM f) = items.findSome? fun a => failure? (f a) := by
  induction items with
  | nil =>
      rfl
  | cons a rest ih =>
      rw [List.mapM_cons, failure?_bind, List.findSome?_cons, ← ih]
      cases f a with
      | error error =>
          rfl
      | ok b =>
          simp only [failure?]
          cases rest.mapM f with
          | error error =>
              rfl
          | ok values =>
              rfl

theorem findSome?_flatMap {α β γ : Type} (f : α → List β) (g : β → Option γ)
    (items : List α) :
    (items.flatMap f).findSome? g =
      items.findSome? fun a => (f a).findSome? g := by
  induction items with
  | nil =>
      rfl
  | cons a rest ih =>
      rw [List.flatMap_cons, List.findSome?_append, ih, List.findSome?_cons]
      cases (f a).findSome? g with
      | none =>
          rfl
      | some c =>
          rfl

theorem findSome?_if {α β : Type} (p : α → Bool) (b : β) (items : List α) :
    (items.findSome? fun a => if p a then some b else none) =
      if items.any p then some b else none := by
  induction items with
  | nil =>
      rfl
  | cons a rest ih =>
      rw [List.findSome?_cons, List.any_cons, ih]
      cases p a with
      | false =>
          rfl
      | true =>
          rfl

theorem mapM_append_eq_ok {ε α β : Type} {f : α → Except ε β}
    {items more : List α} {values others : List β}
    (h : items.mapM f = .ok values) (hmore : more.mapM f = .ok others) :
    (items ++ more).mapM f = .ok (values ++ others) := by
  rw [List.mapM_append, h, hmore]
  rfl

theorem mapM_flatMap_eq_ok {ε κ α β : Type} {f : α → Except ε β}
    {items : κ → List α} {values : κ → List β} {keys : List κ}
    (h : ∀ key ∈ keys, (items key).mapM f = .ok (values key)) :
    (keys.flatMap items).mapM f = .ok (keys.flatMap values) := by
  induction keys with
  | nil =>
      rfl
  | cons key rest ih =>
      rcases List.forall_mem_cons.mp h with ⟨hkey, hrest⟩
      exact mapM_append_eq_ok hkey (ih hrest)

end CudaProfile
