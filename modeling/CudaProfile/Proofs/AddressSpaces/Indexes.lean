import Mathlib.Data.List.Basic
import Mathlib.Data.List.Induction
import CudaProfile.AddressSpaces.Application
import CudaProfile.Proofs.Order.OrderedMap
/-!
# The indexes of address spaces

Mappings are kept in the order of their arrival, and three indexes list their
numbers by thread, by linked object, and by both. Whatever happens to address
spaces, every index lists under each key exactly the mappings with this key, in
their order. The one operation that moves entries from key to key is the
exchange of a linked object; it relies on the new object being mapped nowhere
before.
-/

namespace CudaProfile

open Std Lexicographic

/-! ## Numbers of items with a property -/

theorem findIdxs_congr {α : Type} {p q : α → Bool} {items : List α}
    (h : ∀ a ∈ items, p a = q a) (start : Nat) :
    items.findIdxs p start = items.findIdxs q start := by
  induction items generalizing start with
  | nil =>
      rfl
  | cons a rest ih =>
      rcases List.forall_mem_cons.mp h with ⟨ha, hrest⟩
      rw [List.findIdxs_cons, List.findIdxs_cons, ha, ih hrest]

theorem filterMap_findIdxs {α : Type} (p : α → Bool) (items : List α) :
    ((items.findIdxs p).filterMap fun number => items[number]?) =
      items.filter p := by
  induction items using List.reverseRecOn with
  | nil =>
      rfl
  | append_singleton rest a ih =>
      have hrest : ((rest.findIdxs p).filterMap fun number =>
          (rest ++ [a])[number]?) = rest.filter p := by
        rw [← ih]
        apply List.filterMap_congr
        intro number hnumber
        rw [List.getElem?_append_left]
        simpa using List.lt_add_of_mem_findIdxs number hnumber
      rw [List.findIdxs_append, List.filterMap_append, hrest,
        List.filter_append, List.findIdxs_singleton]
      cases hp : p a with
      | false =>
          simp [hp]
      | true =>
          simp [hp]

theorem map_modify_of_eq {α β : Type} {f : α → α} {g : α → β}
    (h : ∀ a, g (f a) = g a) (items : List α) (number : Nat) :
    (items.modify number f).map g = items.map g := by
  apply List.ext_getElem?
  intro other
  rw [List.getElem?_map, List.getElem?_map, List.getElem?_modify]
  cases items[other]? with
  | none =>
      rfl
  | some a =>
      by_cases hnumber : number = other
      · simp [hnumber, h]
      · simp [hnumber]

namespace AddressSpaces

/-! ## Indexes -/

def Lists {κ : Type} [Ord κ] [DecidableEq κ] (index : OrderedMap κ (List Nat))
    (key : Mapping → κ) (mappings : List Mapping) : Prop :=
  ∀ k, (index.get? k).getD [] = mappings.findIdxs fun m => key m = k

def threadObject (m : Mapping) : ThreadName × Handle :=
  (m.thread, m.object.handle)

section Lists

variable {κ : Type} [Ord κ] [TransOrd κ] [LawfulEqOrd κ] [DecidableEq κ]
  {index : OrderedMap κ (List Nat)} {key : Mapping → κ}
  {mappings : List Mapping}

theorem Lists.insert (h : Lists index key mappings) (m : Mapping) :
    Lists (index.alter (key m) (append mappings.length)) key
      (mappings ++ [m]) := by
  intro k
  rw [OrderedMap.get?_alter, List.findIdxs_append, ← h k,
    List.findIdxs_singleton]
  by_cases hk : k = key m
  · simp [hk, append]
  · simp [hk, Ne.symm hk]

omit [TransOrd κ] [LawfulEqOrd κ] in
theorem Lists.congr (h : Lists index key mappings) {mappings' : List Mapping}
    (hkeys : mappings'.map key = mappings.map key) :
    Lists index key mappings' := by
  have hfind : ∀ (ms : List Mapping) k,
      (ms.findIdxs fun m => key m = k) =
        (ms.map key).findIdxs fun other => other = k := by
    intro ms k
    rw [List.findIdxs_map]
    rfl
  intro k
  rw [h k, hfind, hfind, hkeys]

end Lists

/-- Every index lists the mappings as they are, and only threads with mappings
are in the index by thread. -/
structure Indexed (s : AddressSpaces) : Prop where
  byThread : Lists s.byThread Mapping.thread s.mappings
  byObject : Lists s.byObject (fun m => m.object.handle) s.mappings
  byThreadObject : Lists s.byThreadObject threadObject s.mappings
  mapped : ∀ t ∈ s.byThread.keys, ∃ m ∈ s.mappings, m.thread = t

theorem indexed_empty : Indexed ∅ := by
  constructor
  · intro t
    rfl
  · intro object
    rfl
  · intro key
    rfl
  · intro t ht
    cases ht

theorem Indexed.insert {s : AddressSpaces} (h : Indexed s) (m : Mapping) :
    Indexed (s.insert m) := by
  constructor
  · exact h.byThread.insert m
  · exact h.byObject.insert m
  · exact h.byThreadObject.insert m
  · intro t ht
    change t ∈ (s.byThread.alter m.thread (append s.size)).keys at ht
    rw [OrderedMap.mem_keys_iff, OrderedMap.get?_alter] at ht
    by_cases hself : t = m.thread
    · exact ⟨m, List.mem_append_right _ (List.mem_singleton_self m), hself.symm⟩
    · rw [if_neg hself, ← OrderedMap.mem_keys_iff] at ht
      rcases h.mapped t ht with ⟨n, hn, hthread⟩
      exact ⟨n, List.mem_append_left _ hn, hthread⟩

theorem Indexed.congr {s s' : AddressSpaces} (h : Indexed s)
    (hthread : s'.byThread = s.byThread) (hobject : s'.byObject = s.byObject)
    (hboth : s'.byThreadObject = s.byThreadObject)
    (hkeys : s'.mappings.map threadObject = s.mappings.map threadObject) :
    Indexed s' := by
  have hthreads := congrArg (List.map Prod.fst) hkeys
  have hobjects := congrArg (List.map Prod.snd) hkeys
  rw [List.map_map, List.map_map] at hthreads hobjects
  constructor
  · rw [hthread]
    exact h.byThread.congr hthreads
  · rw [hobject]
    exact h.byObject.congr hobjects
  · rw [hboth]
    exact h.byThreadObject.congr hkeys
  · intro t ht
    rw [hthread] at ht
    rcases h.mapped t ht with ⟨m, hm, hself⟩
    have hmem : t ∈ s'.mappings.map Mapping.thread := by
      change t ∈ s'.mappings.map (Prod.fst ∘ threadObject)
      rw [hthreads]
      exact List.mem_map.mpr ⟨m, hm, hself⟩
    exact List.mem_map.mp hmem

theorem map_unload (s : AddressSpaces) (thread : ThreadName)
    (object : LinkedObject) (time : Time) {β : Type} {g : Mapping → β}
    (hg : ∀ m, g (m.unloadedAt time) = g m) :
    (s.unload thread object time).state.mappings.map g = s.mappings.map g := by
  have hfold : ∀ (numbers : List Nat) (ms : List Mapping),
      (numbers.foldl (fun ms number =>
        ms.modify number fun m => m.unloadedAt time) ms).map g = ms.map g := by
    intro numbers
    induction numbers with
    | nil =>
        intro ms
        rfl
    | cons number rest ih =>
        intro ms
        rw [List.foldl_cons, ih]
        exact map_modify_of_eq hg ms number
  unfold AddressSpaces.unload
  split
  · rfl
  · exact hfold _ s.mappings

theorem unload_state (s : AddressSpaces) (thread : ThreadName)
    (object : LinkedObject) (time : Time) :
    ∃ mappings, mappings.map threadObject = s.mappings.map threadObject ∧
      (s.unload thread object time).state =
        { s with mappings := mappings } := by
  refine ⟨_, s.map_unload thread object time fun _ => rfl, ?_⟩
  unfold AddressSpaces.unload
  split
  · rfl
  · rfl

theorem Indexed.unload {s : AddressSpaces} (h : Indexed s)
    (thread : ThreadName) (object : LinkedObject) (time : Time) :
    Indexed (s.unload thread object time).state := by
  rcases s.unload_state thread object time with ⟨mappings, hkeys, hstate⟩
  rw [hstate]
  exact h.congr rfl rfl rfl hkeys

/-! ## Exchanging a linked object -/

def listed (s : AddressSpaces) (t : ThreadName) (object : Handle) : List Nat :=
  (s.byThreadObject.get? (t, object)).getD []

def threadsAt (s : AddressSpaces) (numbers : List Nat) : List ThreadName :=
  (s.mappingsOf numbers).map Mapping.thread

/-- What becomes of address spaces when the mappings of some numbers get
another object: the lists of their threads move from the former object to the
new one. -/
structure Exchanged (former object : LinkedObject) (numbers : List Nat)
    (s s' : AddressSpaces) : Prop where
  byThread : s'.byThread = s.byThread
  byObject : s'.byObject = s.byObject
  objects : s'.objects = s.objects
  mappings : ∀ i, s'.mappings[i]? =
    if i ∈ numbers then s.mappings[i]?.map fun m => m.withObject object
    else s.mappings[i]?
  listed : ∀ t handle, s'.listed t handle =
    if t ∈ s.threadsAt numbers then
      if handle = former.handle then []
      else if handle = object.handle then
        s.listed t object.handle ++ s.listed t former.handle
      else s.listed t handle
    else s.listed t handle

section Exchange

variable {former object : LinkedObject} {s s' s'' : AddressSpaces}

theorem exchanged_nil : Exchanged former object [] s s := by
  constructor
  · rfl
  · rfl
  · rfl
  · intro i
    simp
  · intro t handle
    simp [threadsAt, mappingsOf]

theorem threadsAt_eq (numbers : List Nat)
    (h : ∀ i : Nat, s'.mappings[i]?.map Mapping.thread =
      s.mappings[i]?.map Mapping.thread) :
    s'.threadsAt numbers = s.threadsAt numbers := by
  unfold threadsAt mappingsOf
  rw [List.map_filterMap, List.map_filterMap]
  apply List.filterMap_congr
  intro i _
  exact h i

theorem Exchanged.thread_eq {numbers : List Nat}
    (h : Exchanged former object numbers s s') (i : Nat) :
    s'.mappings[i]?.map Mapping.thread = s.mappings[i]?.map Mapping.thread := by
  rw [h.mappings]
  split
  · rw [Option.map_map]
    rfl
  · rfl

theorem threadsAt_append (s : AddressSpaces) (before after : List Nat) :
    s.threadsAt (before ++ after) =
      s.threadsAt before ++ s.threadsAt after := by
  unfold threadsAt mappingsOf
  rw [List.filterMap_append, List.map_append]

theorem Exchanged.trans {before after : List Nat}
    (hne : former.handle ≠ object.handle)
    (h : Exchanged former object before s s')
    (h' : Exchanged former object after s' s'') :
    Exchanged former object (before ++ after) s s'' := by
  constructor
  · exact h'.byThread.trans h.byThread
  · exact h'.byObject.trans h.byObject
  · exact h'.objects.trans h.objects
  · intro i
    rw [h'.mappings, h.mappings]
    by_cases hbefore : i ∈ before
    · by_cases hafter : i ∈ after
      · simp only [hbefore, hafter, List.mem_append, or_self, if_true,
          Option.map_map]
        rfl
      · simp [hbefore, hafter]
    · simp [hbefore]
  · intro t handle
    have hthreads := threadsAt_eq after h.thread_eq
    rw [h'.listed, hthreads, threadsAt_append, h.listed, h.listed, h.listed]
    -- What has moved leaves nothing under the former object, so that a further
    -- mapping of the same thread moves nothing.
    by_cases hbefore : t ∈ s.threadsAt before
    · by_cases hformer : handle = former.handle
      · simp [hbefore, hformer]
      · by_cases hobject : handle = object.handle
        · simp [hbefore, hobject, hne.symm]
        · simp [hbefore, hformer, hobject]
    · simp [hbefore]

/-- The mapping of a number gets the new object, and with it the list of its
thread. Where the thread has no list any more, an earlier mapping moved it. -/
theorem listed_exchangeIn (hne : former.handle ≠ object.handle) {number : Nat}
    {m : Mapping} (hm : s.mappings[number]? = some m) (t : ThreadName)
    (handle : Handle) :
    (exchangeIn former object s number).listed t handle =
      if t = m.thread then
        if handle = former.handle then []
        else if handle = object.handle then
          s.listed t object.handle ++ s.listed t former.handle
        else s.listed t handle
      else s.listed t handle := by
  unfold exchangeIn AddressSpaces.listed
  simp only [hm]
  cases hpresent : s.byThreadObject.get? (m.thread, former.handle) with
  | none =>
      by_cases ht : t = m.thread
      · by_cases hformer : handle = former.handle
        · simp [ht, hformer, hpresent]
        · by_cases hobject : handle = object.handle
          · simp [ht, hobject, hne.symm, hpresent]
          · simp [ht, hformer, hobject]
      · simp [ht]
  | some numbers =>
      simp only [OrderedMap.get?_alter, OrderedMap.get?_erase, Prod.mk.injEq]
      by_cases ht : t = m.thread
      · by_cases hformer : handle = former.handle
        · simp [ht, hformer, hne]
        · by_cases hobject : handle = object.handle
          · simp [ht, hobject, hne.symm, hpresent]
          · simp [ht, hformer, hobject]
      · simp [ht]

theorem exchanged_exchangeIn (hne : former.handle ≠ object.handle)
    (number : Nat) :
    Exchanged former object [number] s (exchangeIn former object s number) := by
  cases hm : s.mappings[number]? with
  | none =>
      have hsame : exchangeIn former object s number = s := by
        unfold exchangeIn
        rw [hm]
      rw [hsame]
      constructor
      · rfl
      · rfl
      · rfl
      · intro i
        by_cases hi : i = number
        · simp [hi, hm]
        · simp [hi]
      · intro t handle
        simp [threadsAt, mappingsOf, hm]
  | some m =>
      have hthreads : s.threadsAt [number] = [m.thread] := by
        simp [threadsAt, mappingsOf, hm]
      constructor
      · simp only [exchangeIn, hm]
      · simp only [exchangeIn, hm]
      · simp only [exchangeIn, hm]
      · intro i
        simp only [exchangeIn, hm, List.getElem?_modify, List.mem_singleton]
        by_cases hi : i = number
        · simp [hi]
        · simp [hi, Ne.symm hi]
      · intro t handle
        simp only [hthreads, List.mem_singleton]
        exact listed_exchangeIn hne hm t handle

theorem exchanged_foldl (hne : former.handle ≠ object.handle)
    (numbers : List Nat) :
    Exchanged former object numbers s
      (numbers.foldl (exchangeIn former object) s) := by
  induction numbers generalizing s with
  | nil =>
      exact exchanged_nil
  | cons number rest ih =>
      exact (exchanged_exchangeIn hne number).trans hne ih

end Exchange

def exchanged (former object : LinkedObject) (m : Mapping) : Mapping :=
  if m.object.handle = former.handle then m.withObject object else m

theorem exchanged_thread (former object : LinkedObject) (m : Mapping) :
    (exchanged former object m).thread = m.thread := by
  unfold exchanged
  split
  · rfl
  · rfl

theorem exchanged_handle (former object : LinkedObject) (m : Mapping) :
    (exchanged former object m).object.handle =
      if m.object.handle = former.handle then object.handle
      else m.object.handle := by
  unfold exchanged
  split
  · rfl
  · rfl

def exchangeStart (s : AddressSpaces) (former object : LinkedObject) :
    AddressSpaces :=
  { s with
    objects := match s.objects.get? (Path.components object.file.path) with
      | none => s.objects
      | some known =>
          s.objects.insert (Path.components object.file.path)
            (exchangeFirst former object known)
    byObject := s.byObject.erase former.handle }

section Exchange

variable {s : AddressSpaces} {former object : LinkedObject}

theorem exchange_eq (s : AddressSpaces) (former object : LinkedObject) :
    s.exchange former object =
      let numbers := (s.byObject.get? former.handle).getD []
      let s' := numbers.foldl (exchangeIn former object)
        (s.exchangeStart former object)
      { s' with
        byObject := if numbers.isEmpty then s'.byObject
          else s'.byObject.insert object.handle numbers } := by
  unfold exchange exchangeStart
  simp only
  split
  · rfl
  · rfl

theorem exchange_objects (hne : former.handle ≠ object.handle) :
    (s.exchange former object).objects =
      (s.exchangeStart former object).objects := by
  rw [exchange_eq]
  exact (exchanged_foldl hne _).objects

theorem Indexed.mem_byObject (h : Indexed s) {i : Nat} {m : Mapping}
    (hm : s.mappings[i]? = some m) (object : Handle) :
    i ∈ (s.byObject.get? object).getD [] ↔ m.object.handle = object := by
  rcases List.getElem?_eq_some_iff.mp hm with ⟨hi, rfl⟩
  rw [h.byObject object, List.mem_findIdxs_iff_pos_getElem hi]
  exact decide_eq_true_iff

theorem Indexed.exchange_mappings (h : Indexed s)
    (hne : former.handle ≠ object.handle) :
    (s.exchange former object).mappings =
      s.mappings.map (exchanged former object) := by
  rw [exchange_eq]
  apply List.ext_getElem?
  intro i
  rw [List.getElem?_map]
  rw [(exchanged_foldl hne _).mappings]
  change (if i ∈ (s.byObject.get? former.handle).getD [] then
    s.mappings[i]?.map _ else s.mappings[i]?) = _
  cases hm : s.mappings[i]? with
  | none =>
      simp
  | some m =>
      rw [if_congr (h.mem_byObject hm former.handle) rfl rfl]
      exact (apply_ite some _ _ _).symm

theorem Indexed.byObject_eq_nil (h : Indexed s)
    (hfresh : ∀ m ∈ s.mappings, m.object.handle ≠ object.handle) :
    (s.byObject.get? object.handle).getD [] = [] := by
  rw [h.byObject, List.findIdxs_eq_nil_iff]
  intro m hm
  exact decide_eq_false (hfresh m hm)

theorem Indexed.exchange_numbers (h : Indexed s)
    (hne : former.handle ≠ object.handle)
    (hfresh : ∀ m ∈ s.mappings, m.object.handle ≠ object.handle)
    (handle : Handle) :
    ((s.exchange former object).byObject.get? handle).getD [] =
      if handle = former.handle then []
      else if handle = object.handle then
        (s.byObject.get? former.handle).getD []
      else (s.byObject.get? handle).getD [] := by
  have hstart : (s.exchangeStart former object).byObject =
      s.byObject.erase former.handle := rfl
  rw [exchange_eq]
  simp only [(exchanged_foldl hne _).byObject, hstart]
  by_cases hempty : ((s.byObject.get? former.handle).getD []).isEmpty
  · rw [if_pos hempty, OrderedMap.get?_erase]
    by_cases hformer : handle = former.handle
    · simp [hformer]
    · by_cases hobject : handle = object.handle
      · rw [if_neg hformer, if_neg hformer, if_pos hobject, hobject,
          h.byObject_eq_nil hfresh, List.isEmpty_iff.mp hempty]
      · simp [hformer, hobject]
  · rw [if_neg hempty, OrderedMap.get?_insert, OrderedMap.get?_erase]
    by_cases hformer : handle = former.handle
    · simp [hformer, hne]
    · by_cases hobject : handle = object.handle
      · simp [hobject, hne.symm]
      · simp [hformer, hobject]

theorem findIdxs_exchanged {ms : List Mapping}
    (hne : former.handle ≠ object.handle)
    (hfresh : ∀ m ∈ ms, m.object.handle ≠ object.handle) {p : Mapping → Bool}
    (hp : ∀ m, p (exchanged former object m) = p m) (handle : Handle) :
    ((ms.map (exchanged former object)).findIdxs fun m =>
        p m && m.object.handle = handle) =
      if handle = former.handle then []
      else if handle = object.handle then
        ms.findIdxs fun m => p m && m.object.handle = former.handle
      else ms.findIdxs fun m => p m && m.object.handle = handle := by
  rw [List.findIdxs_map]
  split
  · next hformer =>
    rw [List.findIdxs_eq_nil_iff]
    intro m _
    simp only [Function.comp_apply, hp, exchanged_handle, hformer]
    grind
  · split
    · next hobject =>
      apply findIdxs_congr
      intro m hm
      have hunused := hfresh m hm
      simp only [Function.comp_apply, hp, exchanged_handle, hobject]
      grind
    · apply findIdxs_congr
      intro m _
      simp only [Function.comp_apply, hp, exchanged_handle]
      grind

theorem Indexed.exchange_byObject (h : Indexed s)
    (hne : former.handle ≠ object.handle)
    (hfresh : ∀ m ∈ s.mappings, m.object.handle ≠ object.handle) :
    Lists (s.exchange former object).byObject (fun m => m.object.handle)
      (s.mappings.map (exchanged former object)) := by
  have hmoved := findIdxs_exchanged (p := fun _ => true) hne hfresh
    fun _ => rfl
  simp only [Bool.true_and] at hmoved
  intro handle
  rw [h.exchange_numbers hne hfresh, hmoved, h.byObject, h.byObject]

theorem Indexed.exchange_listed (h : Indexed s)
    (hne : former.handle ≠ object.handle)
    (hfresh : ∀ m ∈ s.mappings, m.object.handle ≠ object.handle)
    (t : ThreadName) (handle : Handle) :
    (s.exchange former object).listed t handle =
      if handle = former.handle then []
      else if handle = object.handle then s.listed t former.handle
      else s.listed t handle := by
  have hunused : s.listed t object.handle = [] := by
    unfold listed
    rw [h.byThreadObject, List.findIdxs_eq_nil_iff]
    intro m hm
    refine decide_eq_false fun heq => hfresh m hm ?_
    exact congrArg Prod.snd heq
  have hlisted := (exchanged_foldl (s := s.exchangeStart former object) hne
    ((s.byObject.get? former.handle).getD [])).listed t handle
  have hstart : ∀ other, (s.exchangeStart former object).listed t other =
      s.listed t other := fun _ => rfl
  have hresult : (s.exchange former object).listed t handle =
      (((s.byObject.get? former.handle).getD []).foldl
        (exchangeIn former object) (s.exchangeStart former object)).listed t
          handle := by
    rw [exchange_eq]
    rfl
  rw [hresult, hlisted]
  simp only [hstart]
  split
  · rw [hunused, List.nil_append]
  · next hthread =>
    -- A thread without the former object has nothing under either.
    have hnone : s.listed t former.handle = [] := by
      unfold listed
      rw [h.byThreadObject, List.findIdxs_eq_nil_iff]
      intro m hm
      refine decide_eq_false fun heq => hthread ?_
      rcases List.getElem?_of_mem hm with ⟨i, hi⟩
      have hnumber := (h.mem_byObject hi former.handle).mpr
        (congrArg Prod.snd heq)
      exact List.mem_map.mpr ⟨m, List.mem_filterMap.mpr ⟨i, hnumber, hi⟩,
        congrArg Prod.fst heq⟩
    split
    · next hformer =>
      rw [hformer, hnone]
    · split
      · next hobject =>
        rw [hobject, hunused, hnone]
      · rfl

theorem Indexed.exchange_byThreadObject (h : Indexed s)
    (hne : former.handle ≠ object.handle)
    (hfresh : ∀ m ∈ s.mappings, m.object.handle ≠ object.handle) :
    Lists (s.exchange former object).byThreadObject threadObject
      (s.mappings.map (exchanged former object)) := by
  have hpair : ∀ (ms : List Mapping) t handle,
      (ms.findIdxs fun m => decide (threadObject m = (t, handle))) =
        ms.findIdxs fun m => m.thread = t && m.object.handle = handle := by
    intro ms t handle
    apply findIdxs_congr
    intro m _
    simp only [threadObject, Prod.mk.injEq, Bool.decide_and]
  have hold : ∀ t handle, s.listed t handle =
      s.mappings.findIdxs fun m => m.thread = t && m.object.handle = handle :=
    fun t handle => (h.byThreadObject (t, handle)).trans (hpair _ t handle)
  rintro ⟨t, handle⟩
  have hmoved := findIdxs_exchanged (p := fun m => m.thread = t) hne hfresh
    (fun m => by rw [exchanged_thread]) handle
  change (s.exchange former object).listed t handle = _
  rw [h.exchange_listed hne hfresh, hpair, hmoved, hold, hold]

theorem Indexed.exchange (h : Indexed s)
    (hne : former.handle ≠ object.handle)
    (hfresh : ∀ m ∈ s.mappings, m.object.handle ≠ object.handle) :
    Indexed (s.exchange former object) := by
  have hmappings := h.exchange_mappings hne
  have hthreads : (s.exchange former object).byThread = s.byThread := by
    rw [exchange_eq]
    exact (exchanged_foldl hne _).byThread
  have hthread : (s.mappings.map (exchanged former object)).map Mapping.thread =
      s.mappings.map Mapping.thread := by
    rw [List.map_map]
    exact List.map_congr_left fun m _ => exchanged_thread former object m
  constructor
  · rw [hmappings, hthreads]
    exact h.byThread.congr hthread
  · rw [hmappings]
    exact h.exchange_byObject hne hfresh
  · rw [hmappings]
    exact h.exchange_byThreadObject hne hfresh
  · intro t ht
    rw [hthreads] at ht
    rcases h.mapped t ht with ⟨m, hm, hself⟩
    refine ⟨exchanged former object m, ?_, ?_⟩
    · rw [hmappings]
      exact List.mem_map_of_mem hm
    · rw [exchanged_thread, hself]

end Exchange

end AddressSpaces
end CudaProfile
