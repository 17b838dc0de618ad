import Mathlib.Data.List.Find
import Mathlib.Data.List.Nodup
import CudaProfile.Proofs.AddressSpaces.Loading
/-!
# What can be unloaded

A mapping is unloaded by the file that it was loaded with as long as this file
leads to its linked object. Objects are found by the first known one of a path
that agrees with the file. What becomes known later stands behind, so a file
leads to the same object until a symbol table takes the place of a known one:
agreement is not transitive, since the checksum zero agrees with every other,
and the new object need not agree with the file that the former one agreed with.
-/

namespace CudaProfile

open Std Lexicographic

theorem FileName.agrees_self (file : FileName) : file.agrees file = true := by
  simp [agrees, Path.same]

namespace AddressSpaces

/-! ## Unloading a mapping -/

section Unload

variable {s : AddressSpaces} {number : Nat} {m : Mapping}

theorem getElem?_foldl_unloadedAt (time : Time) (numbers : List Nat)
    (ms : List Mapping) (i : Nat) :
    (numbers.foldl (fun ms number =>
      ms.modify number fun m => m.unloadedAt time) ms)[i]? =
      if i ∈ numbers then ms[i]?.map fun m => m.unloadedAt time
      else ms[i]? := by
  induction numbers generalizing ms with
  | nil =>
      rfl
  | cons number rest ih =>
      rw [List.foldl_cons, ih, List.getElem?_modify]
      by_cases hi : number = i
      · subst hi
        cases ms[number]? with
        | none =>
            simp
        | some m =>
            simp [Mapping.unloadedAt]
      · simp [hi, Ne.symm hi]

theorem Indexed.mem_openMappings (h : Indexed s)
    (hm : s.mappings[number]? = some m) (thread : ThreadName)
    (object : LinkedObject) :
    number ∈ s.openMappings thread object ↔
      (m.thread = thread ∧ m.object.handle = object.handle) ∧
        m.isLoaded = true := by
  rcases List.getElem?_eq_some_iff.mp hm with ⟨hlt, rfl⟩
  unfold openMappings
  rw [h.byThreadObject, List.mem_filter,
    List.mem_findIdxs_iff_pos_getElem hlt, hm]
  simp [threadObject]

theorem Indexed.unload_mapping (h : Indexed s)
    (hm : s.mappings[number]? = some m) (thread : ThreadName)
    (object : LinkedObject) (time : Time) :
    (s.unload thread object time).state.mappings[number]? =
      some (if (m.thread = thread ∧ m.object.handle = object.handle) ∧
        m.isLoaded = true then m.unloadedAt time else m) := by
  have hmem := h.mem_openMappings hm thread object
  unfold AddressSpaces.unload
  split
  · next hnone =>
    rw [hnone] at hmem
    rw [if_neg fun hopen => List.not_mem_nil (hmem.mpr hopen)]
    exact hm
  · next hsome =>
    simp only [Outcome.done, getElem?_foldl_unloadedAt, hm]
    split
    · next hopen =>
      rw [if_pos (hmem.mp hopen)]
      rfl
    · next hopen =>
      rw [if_neg fun hboth => hopen (hmem.mpr hboth)]

theorem refusal_unload_of_mem {thread : ThreadName} {object : LinkedObject}
    (h : number ∈ s.openMappings thread object) (time : Time) :
    (s.unload thread object time).refusal = none := by
  unfold AddressSpaces.unload
  split
  · next hnone =>
    rw [hnone] at h
    cases h
  · rfl

end Unload

/-! ## Known objects -/

def known (s : AddressSpaces) (path : List Path.Component) :
    List LinkedObject :=
  (s.objects.get? path).getD []

theorem object?_eq (s : AddressSpaces) (file : FileName) :
    s.object? file = (s.known (Path.components file.path)).find? fun object =>
      object.file.agrees file :=
  rfl

theorem agrees_of_object? {s : AddressSpaces} {file : FileName}
    {object : LinkedObject} (h : s.object? file = some object) :
    object.file.agrees file = true := by
  rw [object?_eq] at h
  exact List.find?_some (p := fun o => LinkedObject.file o |>.agrees file) h

theorem known_learn (s : AddressSpaces) (object : LinkedObject)
    (path : List Path.Component) :
    (s.learn object).known path =
      if path = Path.components object.file.path then
        s.known path ++ [object]
      else s.known path := by
  unfold known AddressSpaces.learn
  rw [OrderedMap.get?_alter]
  by_cases hpath : path = Path.components object.file.path
  · simp [hpath]
  · simp [hpath]

theorem known_exchange {s : AddressSpaces} {former object : LinkedObject}
    (hne : former.handle ≠ object.handle) (path : List Path.Component) :
    (s.exchange former object).known path =
      if path = Path.components object.file.path then
        exchangeFirst former object (s.known path)
      else s.known path := by
  unfold known
  rw [exchange_objects hne]
  unfold exchangeStart
  by_cases hpath : path = Path.components object.file.path
  · subst hpath
    cases hknown : s.objects.get? (Path.components object.file.path) with
    | none =>
        simp [hknown, exchangeFirst]
    | some known =>
        simp [OrderedMap.get?_insert]
  · rw [if_neg hpath]
    split
    · rfl
    · rw [OrderedMap.get?_insert, if_neg hpath]

def replaced (former object known : LinkedObject) : LinkedObject :=
  if known.handle = former.handle then object else known

theorem exchangeFirst_eq_map {former object : LinkedObject}
    {known : List LinkedObject}
    (hnodup : (known.map LinkedObject.handle).Nodup) :
    exchangeFirst former object known =
      known.map (replaced former object) := by
  induction known with
  | nil =>
      rfl
  | cons first rest ih =>
      rcases List.nodup_cons.mp hnodup with ⟨hfirst, hrest⟩
      unfold exchangeFirst
      rw [List.map_cons, replaced]
      split
      · next hformer =>
        have hsame : rest.map (replaced former object) = rest.map id := by
          apply List.map_congr_left
          intro other hother
          refine if_neg fun heq => hfirst ?_
          rw [hformer, ← heq]
          exact List.mem_map_of_mem hother
        rw [hsame, List.map_id]
      · rw [ih hrest]

structure Apart (bound : Nat) (s : AddressSpaces) : Prop where
  below : ∀ path, ∀ object ∈ s.known path, object.handle.table < bound
  nodup : ∀ path, ((s.known path).map LinkedObject.handle).Nodup
  path_eq : ∀ path path', ∀ object ∈ s.known path, ∀ other ∈ s.known path',
    object.handle = other.handle → path = path'

section Apart

variable {bound : Nat} {s : AddressSpaces} {object : LinkedObject}

theorem apart_empty : Apart bound ∅ := by
  constructor
  · intro path object hobject
    cases hobject
  · intro path
    exact List.nodup_nil
  · intro path path' object hobject
    cases hobject

theorem Apart.congr (h : Apart bound s) {s' : AddressSpaces}
    (hobjects : s'.objects = s.objects) : Apart bound s' := by
  have hknown : s'.known = s.known := by
    unfold known
    rw [hobjects]
  constructor
  · rw [hknown]
    exact h.below
  · rw [hknown]
    exact h.nodup
  · rw [hknown]
    exact h.path_eq

theorem Apart.mono (h : Apart bound s) {bound' : Nat} (hle : bound ≤ bound') :
    Apart bound' s := by
  refine ⟨?_, h.nodup, h.path_eq⟩
  intro path object hobject
  exact Nat.lt_of_lt_of_le (h.below path object hobject) hle

theorem Apart.ne_of_fresh (h : Apart bound s)
    (hfresh : object.handle.table = bound) {path : List Path.Component}
    {other : LinkedObject}
    (hother : other ∈ s.known path) : other.handle ≠ object.handle := by
  intro heq
  have hbelow := h.below path other hother
  rw [heq, hfresh] at hbelow
  exact Nat.lt_irrefl _ hbelow

theorem Apart.eq_of_handle_eq (h : Apart bound s)
    {path path' : List Path.Component} {other another : LinkedObject}
    (hother : other ∈ s.known path) (hanother : another ∈ s.known path')
    (heq : other.handle = another.handle) : other = another := by
  have hpath := h.path_eq path path' other hother another hanother heq
  subst hpath
  exact List.inj_on_of_nodup_map (h.nodup path) hother hanother heq

theorem mem_known_learn {path : List Path.Component} {other : LinkedObject}
    (h : other ∈ (s.learn object).known path) :
    other ∈ s.known path ∨
      other = object ∧ path = Path.components object.file.path := by
  rw [known_learn] at h
  split at h
  · next hpath =>
    rcases List.mem_append.mp h with hold | hnew
    · exact Or.inl hold
    · exact Or.inr ⟨List.mem_singleton.mp hnew, hpath⟩
  · exact Or.inl h

theorem Apart.learn (h : Apart bound s) (hfresh : object.handle.table = bound) :
    Apart (bound + 1) (s.learn object) := by
  constructor
  · intro path other hother
    rcases mem_known_learn hother with hold | ⟨rfl, _⟩
    · exact Nat.lt_succ_of_lt (h.below path other hold)
    · rw [hfresh]
      exact Nat.lt_succ_self bound
  · intro path
    rw [known_learn]
    split
    · rw [List.map_append, List.map_singleton, List.nodup_append]
      refine ⟨h.nodup path, List.nodup_singleton _, ?_⟩
      intro handle hhandle other hother
      rcases List.mem_map.mp hhandle with ⟨known, hknown, rfl⟩
      rw [List.mem_singleton.mp hother]
      exact h.ne_of_fresh hfresh hknown
    · exact h.nodup path
  · intro path path' other hother another hanother heq
    rcases mem_known_learn hother with hold | ⟨rfl, hpath⟩
    · rcases mem_known_learn hanother with hold' | ⟨rfl, _⟩
      · exact h.path_eq path path' other hold another hold' heq
      · exact absurd heq (h.ne_of_fresh hfresh hold)
    · rcases mem_known_learn hanother with hold' | ⟨rfl, hpath'⟩
      · exact absurd heq.symm (h.ne_of_fresh hfresh hold')
      · rw [hpath, hpath']

theorem Apart.known_exchange (h : Apart bound s) {former : LinkedObject}
    (hne : former.handle ≠ object.handle)
    (hformer : former ∈ s.known (Path.components object.file.path))
    (path : List Path.Component) :
    (s.exchange former object).known path =
      (s.known path).map (replaced former object) := by
  rw [AddressSpaces.known_exchange hne]
  split
  · exact exchangeFirst_eq_map (h.nodup path)
  · next hpath =>
    symm
    refine (List.map_congr_left ?_).trans (List.map_id _)
    intro other hother
    refine if_neg fun heq => hpath ?_
    exact h.path_eq path _ other hother former hformer heq

theorem replaced_handle (former object known : LinkedObject) :
    (replaced former object known).handle =
      if known.handle = former.handle then object.handle else known.handle := by
  unfold replaced
  split
  · rfl
  · rfl

theorem Apart.replaced_inj (h : Apart bound s)
    (hfresh : object.handle.table = bound) {former other another : LinkedObject}
    {path path' : List Path.Component} (hother : other ∈ s.known path)
    (hanother : another ∈ s.known path')
    (heq : (replaced former object other).handle =
      (replaced former object another).handle) :
    other.handle = another.handle := by
  have hnew := h.ne_of_fresh hfresh hother
  have hnew' := h.ne_of_fresh hfresh hanother
  rw [replaced_handle, replaced_handle] at heq
  grind

theorem Apart.exchange (h : Apart bound s)
    (hfresh : object.handle.table = bound) {former : LinkedObject}
    (hformer : former ∈ s.known (Path.components object.file.path)) :
    Apart (bound + 1) (s.exchange former object) := by
  have hne := h.ne_of_fresh hfresh hformer
  constructor
  · intro path other hother
    rw [h.known_exchange hne hformer] at hother
    rcases List.mem_map.mp hother with ⟨known, hknown, rfl⟩
    rw [replaced_handle]
    split
    · rw [hfresh]
      exact Nat.lt_succ_self bound
    · exact Nat.lt_succ_of_lt (h.below path known hknown)
  · intro path
    rw [h.known_exchange hne hformer, List.map_map]
    apply List.Nodup.map_on
    · intro other hother another hanother heq
      exact h.eq_of_handle_eq hother hanother
        (h.replaced_inj hfresh hother hanother heq)
    · exact List.Nodup.of_map _ (h.nodup path)
  · intro path path' other hother another hanother heq
    rw [h.known_exchange hne hformer] at hother hanother
    rcases List.mem_map.mp hother with ⟨known, hknown, rfl⟩
    rcases List.mem_map.mp hanother with ⟨known', hknown', rfl⟩
    exact h.path_eq path path' known hknown known' hknown'
      (h.replaced_inj hfresh hknown hknown' heq)

theorem Apart.object?_exchange (h : Apart bound s)
    (hfresh : object.handle.table = bound) {former : LinkedObject}
    (hformer : former ∈ s.known (Path.components object.file.path))
    {file : FileName}
    (hagrees : former.file.agrees file = object.file.agrees file) :
    (s.exchange former object).object? file =
      (s.object? file).map (replaced former object) := by
  have hplace : ∀ other ∈ s.known (Path.components file.path),
      (replaced former object other).file.agrees file =
        other.file.agrees file := by
    intro other hother
    unfold replaced
    split
    · next hsame =>
      rw [h.eq_of_handle_eq hother hformer hsame]
      exact hagrees.symm
    · rfl
  rw [object?_eq, h.known_exchange (h.ne_of_fresh hfresh hformer) hformer,
    List.find?_map]
  exact congrArg (Option.map (replaced former object))
    (List.find?_congr hplace)

end Apart

/-! ## From a file to a mapping -/

/-- A file leads to the linked object of the mapping of a number. -/
def Leads (s : AddressSpaces) (file : FileName) (number : Nat) : Prop :=
  ∃ m object, s.mappings[number]? = some m ∧ s.object? file = some object ∧
    object.handle = m.object.handle

section Leads

variable {s s' s'' : AddressSpaces} {file : FileName} {number : Nat}

structure Keeps (s s' : AddressSpaces) : Prop where
  found : ∀ {file : FileName} {object : LinkedObject},
    s.object? file = some object → s'.object? file = some object
  mapped : ∀ {number : Nat} {m : Mapping}, s.mappings[number]? = some m →
    ∃ m' : Mapping, s'.mappings[number]? = some m' ∧ m'.object = m.object

theorem keeps_refl (s : AddressSpaces) : Keeps s s :=
  ⟨id, fun hm => ⟨_, hm, rfl⟩⟩

theorem Keeps.trans (h : Keeps s s') (h' : Keeps s' s'') : Keeps s s'' := by
  constructor
  · intro file object hobject
    exact h'.found (h.found hobject)
  · intro number m hm
    rcases h.mapped hm with ⟨m', hm', heq⟩
    rcases h'.mapped hm' with ⟨m'', hm'', heq'⟩
    exact ⟨m'', hm'', heq'.trans heq⟩

theorem keeps_insert (s : AddressSpaces) (m : Mapping) :
    Keeps s (s.insert m) := by
  refine ⟨id, ?_⟩
  intro number n hn
  have hlt := (List.getElem?_eq_some_iff.mp hn).1
  exact ⟨n, (List.getElem?_append_left hlt).trans hn, rfl⟩

theorem keeps_learn (s : AddressSpaces) (object : LinkedObject) :
    Keeps s (s.learn object) := by
  constructor
  · intro file found hfound
    rw [object?_eq] at hfound ⊢
    rw [known_learn]
    split
    · rw [List.find?_append, hfound]
      rfl
    · exact hfound
  · intro number m hm
    exact ⟨m, hm, rfl⟩

theorem object?_learn {s : AddressSpaces} {object : LinkedObject}
    (h : s.object? object.file = none) :
    (s.learn object).object? object.file = some object := by
  rw [object?_eq] at h ⊢
  rw [known_learn, if_pos rfl, List.find?_append, h, Option.none_or,
    List.find?_singleton, if_pos object.file.agrees_self]

theorem keeps_unload (s : AddressSpaces) (thread : ThreadName)
    (object : LinkedObject) (time : Time) :
    Keeps s (s.unload thread object time).state := by
  have hobjects := s.map_unload thread object time (g := Mapping.object)
    fun _ => rfl
  rcases s.unload_state thread object time with ⟨mappings, _, hstate⟩
  rw [hstate] at hobjects ⊢
  refine ⟨id, ?_⟩
  intro number m hm
  have hnumber := congrArg (fun objects => objects[number]?) hobjects
  simp only [List.getElem?_map, hm, Option.map_some] at hnumber
  exact Option.map_eq_some_iff.mp hnumber

theorem Leads.keep (h : Leads s file number) (hkeeps : Keeps s s') :
    Leads s' file number := by
  rcases h with ⟨m, object, hm, hobject, heq⟩
  rcases hkeeps.mapped hm with ⟨m', hm', hsame⟩
  refine ⟨m', object, hm', hkeeps.found hobject, ?_⟩
  rw [hsame]
  exact heq

theorem Leads.exchange {bound : Nat} (h : Leads s file number)
    (hindexed : Indexed s) (hapart : Apart bound s)
    {former object : LinkedObject} (hfresh : object.handle.table = bound)
    (hformer : former ∈ s.known (Path.components object.file.path))
    (hagrees : former.file.agrees file = object.file.agrees file) :
    Leads (s.exchange former object) file number := by
  have hne := hapart.ne_of_fresh hfresh hformer
  rcases h with ⟨m, found, hm, hfound, heq⟩
  have hmapping : (s.exchange former object).mappings[number]? =
      some (exchanged former object m) := by
    rw [hindexed.exchange_mappings hne, List.getElem?_map, hm]
    rfl
  have hobject : (s.exchange former object).object? file =
      some (replaced former object found) := by
    rw [hapart.object?_exchange hfresh hformer hagrees, hfound]
    rfl
  refine ⟨_, _, hmapping, hobject, ?_⟩
  rw [replaced_handle, exchanged_handle, heq]

end Leads

end AddressSpaces

/-! ## What messages leave in place -/

namespace Application

open AddressSpaces

/-- Where files lead and what is mapped stays, and known objects stay apart. -/
structure Grows (a b : Application) : Prop where
  keeps : Keeps a.spaces b.spaces
  apart : Apart a.symbols.tables.length a.spaces →
    Apart b.symbols.tables.length b.spaces

section Growing

variable {a b c : Application}

theorem grows_refl (a : Application) : Grows a a :=
  ⟨keeps_refl a.spaces, id⟩

theorem Grows.trans (h : Grows a b) (h' : Grows b c) : Grows a c :=
  ⟨h.keeps.trans h'.keeps, fun hapart => h'.apart (h.apart hapart)⟩

theorem grows_insert (a : Application) (m : Mapping) :
    Grows a (a.withSpaces (a.spaces.insert m)) :=
  ⟨keeps_insert a.spaces m, fun hapart => hapart.congr rfl⟩

theorem grows_unload (a : Application) (thread : ThreadName)
    (object : LinkedObject) (time : Time) :
    Grows a (a.withSpaces (a.spaces.unload thread object time).state) := by
  refine ⟨keeps_unload a.spaces thread object time, ?_⟩
  intro hapart
  apply hapart.congr
  rcases a.spaces.unload_state thread object time with ⟨_, _, hstate⟩
  change (a.spaces.unload thread object time).state.objects = _
  rw [hstate]

theorem grows_learn (a : Application) (contents : ObjectContents) :
    Grows a ⟨(a.symbols.addObject contents).1,
      a.spaces.learn (a.symbols.addObject contents).2⟩ := by
  refine ⟨keeps_learn a.spaces _, ?_⟩
  intro hapart
  simp only [addObject_length]
  exact hapart.learn (addObject_handle a.symbols contents)

theorem grows_objectOf (a : Application) (file : FileName) :
    Grows a (a.objectOf file).1 := by
  unfold objectOf
  split
  · exact grows_refl a
  · exact grows_learn a (.new file)

theorem grows_applyGroup (a : Application) (r : ObjectGroupRecord) :
    Grows a (a.applyGroup r) := by
  unfold applyGroup
  induction r.objects generalizing a with
  | nil =>
      exact grows_refl a
  | cons object rest ih =>
      have hfirst : Grows a (map r.thread.name a object) :=
        (grows_objectOf a object.object).trans (grows_insert _ _)
      exact hfirst.trans (ih _)

theorem grows_applyGroups (a : Application) (groups : List ObjectGroupRecord) :
    Grows a (groups.foldl applyGroup a) := by
  induction groups generalizing a with
  | nil =>
      exact grows_refl a
  | cons group rest ih =>
      exact (grows_applyGroup a group).trans (ih _)

theorem grows_applyLoaded (a : Application) (r : LoadedRecord) :
    Grows a (a.applyLoaded r) := by
  refine (grows_objectOf a r.object).trans ?_
  unfold applyLoaded
  simp only
  generalize a.objectOf r.object = found
  rcases found with ⟨b, object⟩
  simp only
  induction r.threads generalizing b with
  | nil =>
      exact grows_refl b
  | cons thread rest ih =>
      exact (grows_insert b _).trans (ih (b.withSpaces _))

theorem grows_applyUnloaded (a : Application) (r : UnloadedRecord) :
    Grows a (a.applyUnloaded r).state := by
  unfold applyUnloaded
  split
  · exact grows_refl a
  · next object _ =>
    have hstep : ∀ (spaces : AddressSpaces) (thread : ThreadRecord),
        Grows a (a.withSpaces spaces) →
          Grows a
            (a.withSpaces (spaces.unload thread.name object r.time).state) :=
      fun spaces thread hspaces =>
        hspaces.trans (grows_unload (a.withSpaces spaces) _ _ _)
    exact Outcome.forEach_induction hstep (grows_refl a) r.threads

/-- A symbol table takes the place of a known object; one that does not leaves
everything in place. -/
theorem applySymbolTable_cases (a : Application) (r : SymbolTableRecord) :
    Grows a (a.applySymbolTable r).state ∨
      ∃ contents former, ObjectContents.ofRecord r = .ok contents ∧
        a.spaces.object? contents.file = some former ∧
        (a.applySymbolTable r).state = ⟨(a.symbols.addObject contents).1,
          a.spaces.exchange former (a.symbols.addObject contents).2⟩ := by
  unfold applySymbolTable
  cases hcontents : ObjectContents.ofRecord r with
  | error error =>
      exact Or.inl (grows_refl a)
  | ok contents =>
      simp only [Outcome.done]
      cases hformer : a.spaces.object? contents.file with
      | none =>
          exact Or.inl (grows_learn a contents)
      | some former =>
          exact Or.inr ⟨contents, former, rfl, hformer, rfl⟩

/-! ## Exchanges that a file does not notice -/

/-- Whether a message leaves the agreement of known objects with a file alone.
A symbol table does so unless it takes the place of an object that agrees with
the file and does not itself agree, or the other way round. -/
def leavesAgreement (file : FileName) (a : Application) : Message → Bool
  | .symbolTable r =>
      match ObjectContents.ofRecord r with
      | .error _ => true
      | .ok contents =>
          (a.spaces.object? contents.file).all fun former =>
            former.file.agrees file = contents.file.agrees file
  | _ => true

def undisturbed (file : FileName) : Application → List Message → Bool
  | _, [] => true
  | a, message :: rest =>
      leavesAgreement file a message && undisturbed file (a.hear message) rest

theorem undisturbed_of_unknown {file : FileName} (hunknown : file.checksum = 0)
    (a : Application) (messages : List Message) :
    undisturbed file a messages = true := by
  induction messages generalizing a with
  | nil =>
      rfl
  | cons message rest ih =>
      unfold undisturbed
      rw [ih, Bool.and_true]
      unfold leavesAgreement
      split
      · split
        · rfl
        · next contents _ =>
          rw [Option.all_eq_true]
          intro former hformer
          have hsame := List.find?_some hformer
          unfold FileName.agrees Path.same at hsame ⊢
          simp only [Bool.and_eq_true, decide_eq_true_eq] at hsame
          simp [hunknown, hsame.1]
      · rfl

section Leading

variable {file : FileName} {number : Nat}

theorem apart_applySymbolTable (h : Apart a.symbols.tables.length a.spaces)
    (r : SymbolTableRecord) :
    Apart (a.applySymbolTable r).state.symbols.tables.length
      (a.applySymbolTable r).state.spaces := by
  rcases a.applySymbolTable_cases r with
    hgrows | ⟨contents, former, _, hformer, hstate⟩
  · exact hgrows.apart h
  · rw [hstate]
    simp only [addObject_length]
    exact h.exchange (addObject_handle a.symbols contents)
      (List.mem_of_find?_eq_some hformer)

theorem apart_hear (h : Apart a.symbols.tables.length a.spaces)
    (message : Message) :
    Apart (a.hear message).symbols.tables.length (a.hear message).spaces := by
  cases message with
  | initialLinkedObjects groups =>
      exact (grows_applyGroups a groups).apart h
  | linkedObjectGroup r =>
      exact (grows_applyGroup a r).apart h
  | loadedLinkedObject r =>
      exact (grows_applyLoaded a r).apart h
  | unloadedLinkedObject r =>
      exact (grows_applyUnloaded a r).apart h
  | symbolTable r =>
      exact apart_applySymbolTable h r
  | _ =>
      exact h

theorem leads_hear (hindexed : Indexed a.spaces)
    (hapart : Apart a.symbols.tables.length a.spaces)
    (h : Leads a.spaces file number) {message : Message}
    (hleaves : leavesAgreement file a message = true) :
    Leads (a.hear message).spaces file number := by
  cases message with
  | initialLinkedObjects groups =>
      exact h.keep (grows_applyGroups a groups).keeps
  | linkedObjectGroup r =>
      exact h.keep (grows_applyGroup a r).keeps
  | loadedLinkedObject r =>
      exact h.keep (grows_applyLoaded a r).keeps
  | unloadedLinkedObject r =>
      exact h.keep (grows_applyUnloaded a r).keeps
  | symbolTable r =>
      change Leads (a.applySymbolTable r).state.spaces file number
      rcases a.applySymbolTable_cases r with
        hgrows | ⟨contents, former, hcontents, hformer, hstate⟩
      · exact h.keep hgrows.keeps
      · rw [hstate]
        unfold leavesAgreement at hleaves
        simp only [hcontents, hformer, Option.all_some, decide_eq_true_eq]
          at hleaves
        exact h.exchange hindexed hapart
          (addObject_handle a.symbols contents)
          (List.mem_of_find?_eq_some hformer) hleaves
  | _ =>
      exact h

theorem leads_foldl_hear (hsound : Sound a)
    (hapart : Apart a.symbols.tables.length a.spaces)
    (h : Leads a.spaces file number) {messages : List Message}
    (hundisturbed : undisturbed file a messages = true) :
    Leads (messages.foldl hear a).spaces file number := by
  induction messages generalizing a with
  | nil =>
      exact h
  | cons message rest ih =>
      rcases Bool.and_eq_true_iff.mp hundisturbed with ⟨hleaves, hrest⟩
      exact ih (hsound.hear message) (apart_hear hapart message)
        (leads_hear hsound.indexed hapart h hleaves) hrest

theorem apart_ofMessages (messages : List Message) :
    Apart (ofMessages messages).symbols.tables.length
      (ofMessages messages).spaces := by
  induction messages using List.reverseRecOn with
  | nil =>
      exact apart_empty
  | append_singleton before message ih =>
      rw [ofMessages_append]
      exact apart_hear ih message

end Leading

end Growing

/-! ## Loads -/

theorem object?_objectOf (a : Application) (file : FileName) :
    (a.objectOf file).1.spaces.object? file = some (a.objectOf file).2 := by
  unfold objectOf
  cases hobject : a.spaces.object? file with
  | some object =>
      exact hobject
  | none =>
      exact object?_learn hobject

theorem mappings_objectOf (a : Application) (file : FileName) :
    (a.objectOf file).1.spaces.mappings = a.spaces.mappings := by
  unfold objectOf
  split
  · rfl
  · rfl

theorem foldl_load (object : LinkedObject) (range : AddressRange) (time : Time)
    (executable : Bool) (threads : List ThreadRecord) (s : AddressSpaces) :
    let s' := threads.foldl (fun spaces thread =>
      spaces.load thread.name object range time executable) s
    s'.objects = s.objects ∧
      s'.mappings = s.mappings ++ threads.map fun thread =>
        ⟨thread.name, object, range, ⟨time, Time.last⟩, executable⟩ := by
  induction threads generalizing s with
  | nil =>
      exact ⟨rfl, (List.append_nil _).symm⟩
  | cons thread rest ih =>
      rcases ih (s.load thread.name object range time executable) with
        ⟨hobjects, hmappings⟩
      refine ⟨hobjects, hmappings.trans ?_⟩
      rw [List.map_cons, load, AddressSpaces.insert, List.append_assoc]
      rfl

theorem leads_applyLoaded (a : Application) (r : LoadedRecord) {k : Nat}
    {thread : ThreadRecord} (hthread : r.threads[k]? = some thread) :
    Leads (a.applyLoaded r).spaces r.object (a.spaces.size + k) := by
  rcases foldl_load (a.objectOf r.object).2 (.ofHalfOpen r.range) r.time
    r.executable r.threads (a.objectOf r.object).1.spaces with
    ⟨hobjects, hmappings⟩
  have hmapping : (a.applyLoaded r).spaces.mappings[a.spaces.size + k]? =
      some ⟨thread.name, (a.objectOf r.object).2, .ofHalfOpen r.range,
        ⟨r.time, Time.last⟩, r.executable⟩ := by
    refine (congrArg (fun ms => ms[a.spaces.size + k]?) hmappings).trans ?_
    rw [mappings_objectOf, size, List.getElem?_append_right
      (Nat.le_add_right _ _), Nat.add_sub_cancel_left, List.getElem?_map,
      hthread]
    rfl
  have hobject : (a.applyLoaded r).spaces.object? r.object =
      some (a.objectOf r.object).2 := by
    rw [← object?_objectOf a r.object]
    unfold object?
    rw [← hobjects]
    rfl
  exact ⟨_, _, hmapping, hobject, rfl⟩

/-! ## Unloading what was loaded -/

/-- A record of unloads is accepted, and ends the mapping of a number. -/
structure Unloads (a : Application) (r : UnloadedRecord) (number : Nat) :
    Prop where
  accepted : (a.applyUnloaded r).refusal = none
  ended : (a.applyUnloaded r).state.spaces.mappings[number]? =
    a.spaces.mappings[number]?.map fun m => m.unloadedAt r.time

section Unloading

variable {a : Application} {thread : ThreadRecord} {file : FileName}
  {number : Nat} {m : Mapping}

theorem applyUnloaded_single {object : LinkedObject}
    (h : a.spaces.object? file = some object) (thread : ThreadRecord)
    (time : Time) :
    a.applyUnloaded ⟨[thread], time, file⟩ =
      (a.spaces.unload thread.name object time).map a.withSpaces := by
  unfold applyUnloaded
  simp only [h, Outcome.forEach_singleton]

/-- An open mapping is unloaded by the files that lead to it. Others may be
refused or end other mappings, but never this one. -/
theorem unloads_iff_leads (hindexed : Indexed a.spaces)
    (hm : a.spaces.mappings[number]? = some m) (hopen : m.isLoaded = true)
    (hthread : m.thread = thread.name) :
    (∀ time, Unloads a ⟨[thread], time, file⟩ number) ↔
      Leads a.spaces file number := by
  constructor
  · intro h
    -- A time before the last one tells the open mapping from an ended one.
    rcases h 0 with ⟨haccepted, hended⟩
    cases hobject : a.spaces.object? file with
    | none =>
        unfold applyUnloaded at haccepted
        rw [hobject] at haccepted
        cases haccepted
    | some object =>
        by_cases hsame : m.object.handle = object.handle
        · exact ⟨m, object, hm, hobject, hsame.symm⟩
        · have hleft := hindexed.unload_mapping hm thread.name object 0
          rw [if_neg fun hboth => hsame hboth.1.2] at hleft
          rw [applyUnloaded_single hobject] at hended
          have hsame := hleft.symm.trans hended
          rw [hm] at hsame
          have hhi := congrArg (fun n => n.interval.hi) (Option.some.inj hsame)
          have hlast : m.interval.hi = Time.last := of_decide_eq_true hopen
          rw [hlast] at hhi
          cases hhi
  · intro h time
    rcases h with ⟨n, object, hn, hobject, hsame⟩
    cases hm.symm.trans hn
    have hmem := (hindexed.mem_openMappings hm thread.name object).mpr
      ⟨⟨hthread, hsame.symm⟩, hopen⟩
    constructor
    · rw [applyUnloaded_single hobject]
      exact refusal_unload_of_mem hmem time
    · rw [applyUnloaded_single hobject, hm]
      refine (hindexed.unload_mapping hm thread.name object time).trans ?_
      rw [if_pos ⟨⟨hthread, hsame.symm⟩, hopen⟩]
      rfl

end Unloading

/-- The mapping that a load made in a thread is at the place of the load among
all loads, whatever messages came since then. -/
theorem loads_of_loaded (before since : List Message) (r : LoadedRecord)
    {k : Nat} {thread : ThreadRecord} (hthread : r.threads[k]? = some thread) :
    (ofMessages (before ++ [.loadedLinkedObject r] ++ since)).loads[
        (ofMessages before).spaces.size + k]? =
      some ⟨thread.name, .ofHalfOpen r.range, r.time, r.executable⟩ := by
  have hbefore : (ofMessages before).spaces.size =
      (before.flatMap Load.ofMessage).length := by
    rw [← loads_ofMessages]
    exact (List.length_map _).symm
  have hload : (Load.ofMessage (.loadedLinkedObject r))[k]? =
      some ⟨thread.name, .ofHalfOpen r.range, r.time, r.executable⟩ := by
    unfold Load.ofMessage
    rw [List.getElem?_map, hthread]
    rfl
  have hlt := (List.getElem?_eq_some_iff.mp hload).1
  rw [loads_ofMessages, List.flatMap_append, List.flatMap_append, hbefore,
    List.flatMap_singleton, List.append_assoc,
    List.getElem?_append_right (Nat.le_add_right _ _),
    Nat.add_sub_cancel_left]
  exact (List.getElem?_append_left hlt).trans hload

theorem leads_of_loaded (before : List Message) {since : List Message}
    {r : LoadedRecord} {k : Nat} {thread : ThreadRecord}
    (hthread : r.threads[k]? = some thread)
    (hundisturbed : undisturbed r.object
      (ofMessages (before ++ [.loadedLinkedObject r])) since = true) :
    Leads (ofMessages (before ++ [.loadedLinkedObject r] ++ since)).spaces
      r.object ((ofMessages before).spaces.size + k) := by
  have hleads : Leads (ofMessages (before ++ [.loadedLinkedObject r])).spaces
      r.object ((ofMessages before).spaces.size + k) := by
    rw [ofMessages_append]
    exact leads_applyLoaded (ofMessages before) r hthread
  rw [ofMessages, List.foldl_append]
  exact leads_foldl_hear (sound_ofMessages _) (apart_ofMessages _) hleads
    hundisturbed

/-- The mapping that a load of a file made in a thread, as messages since then
have left it. While it is open, unloading the file from the thread ends it if
no symbol table has exchanged a known object that agrees with the file for one
that does not, or the other way round, and in general exactly as long as the
file leads to its object. -/
theorem open_mapping_unloads (before since : List Message) (r : LoadedRecord)
    {k : Nat} {thread : ThreadRecord} (hthread : r.threads[k]? = some thread) :
    let loaded := before ++ [.loadedLinkedObject r]
    let a := ofMessages (loaded ++ since)
    let number := (ofMessages before).spaces.size + k
    ∃ m, a.spaces.mappings[number]? = some m ∧
      Load.ofMapping m =
        ⟨thread.name, .ofHalfOpen r.range, r.time, r.executable⟩ ∧
      (m.isLoaded = true →
        (r.object.checksum = 0 ∨
            undisturbed r.object (ofMessages loaded) since = true →
          ∀ time, Unloads a ⟨[thread], time, r.object⟩ number) ∧
        ((∀ time, Unloads a ⟨[thread], time, r.object⟩ number) ↔
          Leads a.spaces r.object number)) := by
  intro loaded a number
  have hload : a.loads[number]? = _ := loads_of_loaded before since r hthread
  rcases Option.map_eq_some_iff.mp (List.getElem?_map.symm.trans hload) with
    ⟨m, hm, hfrom⟩
  refine ⟨m, hm, hfrom, ?_⟩
  intro hopen
  have hiff : (∀ time, Unloads a ⟨[thread], time, r.object⟩ number) ↔
      Leads a.spaces r.object number :=
    unloads_iff_leads (sound_ofMessages (loaded ++ since)).indexed hm hopen
      (congrArg Load.thread hfrom)
  refine ⟨?_, hiff⟩
  intro hsince
  apply hiff.mpr
  rcases hsince with hunknown | hundisturbed
  · exact leads_of_loaded before hthread
      (undisturbed_of_unknown hunknown _ since)
  · exact leads_of_loaded before hthread hundisturbed

def loadInto (pid : Int64) (checksum : UInt64) : LoadedRecord :=
  ⟨[⟨0, "a", pid, false, 0, -1⟩], 10, ⟨0, 16⟩, ⟨"/bin/a", checksum⟩, true⟩

def symbolsOf (checksum : UInt64) : Message :=
  .symbolTable ⟨⟨"/bin/a", checksum⟩, [⟨"main", []⟩], [], []⟩

/-- An object that one thread has loaded without a checksum, and another one
with the checksum of the symbols that come. -/
theorem open_mapping_unloads_same_checksum :
    let a := ofMessages [.loadedLinkedObject (loadInto 1 0),
      .loadedLinkedObject (loadInto 2 1), symbolsOf 1]
    (a.spaces.mappings[1]?.map Mapping.isLoaded = some true) ∧
    ∀ time, Unloads a ⟨(loadInto 2 1).threads, time, ⟨"/bin/a", 1⟩⟩ 1 := by
  intro a
  have hopen : a.spaces.mappings[1]?.map Mapping.isLoaded = some true := by
    decide +kernel
  refine ⟨hopen, ?_⟩
  have hthread : (loadInto 2 1).threads[0]? =
      some ⟨0, "a", 2, false, 0, -1⟩ := rfl
  rcases open_mapping_unloads [.loadedLinkedObject (loadInto 1 0)]
    [symbolsOf 1] (loadInto 2 1) hthread with ⟨m, hm, _, hunloads⟩
  have hm : a.spaces.mappings[1]? = some m := hm
  rw [hm] at hopen
  exact (hunloads (Option.some.inj hopen)).1 (Or.inr (by decide +kernel))

/-- The object without a checksum agrees with the file that the second thread
loads, but the object that takes its place has a third checksum. -/
theorem symbols_strand_open_mapping :
    ¬∀ (before since : List Message) (r : LoadedRecord) (k : Nat)
        (thread : ThreadRecord),
      let a := ofMessages (before ++ [.loadedLinkedObject r] ++ since)
      let number := (ofMessages before).spaces.size + k
      r.threads[k]? = some thread →
        a.spaces.mappings[number]?.map Mapping.isLoaded = some true →
          ∀ time, Unloads a ⟨[thread], time, r.object⟩ number := by
  intro h
  have hunloads := h [.loadedLinkedObject (loadInto 1 0)] [symbolsOf 5]
    (loadInto 2 1) 0 ⟨0, "a", 2, false, 0, -1⟩ rfl (by decide +kernel) 20
  exact absurd hunloads.accepted (by decide +kernel)

/-- A symbol table without a checksum takes the place of the first object, and
with it that of the second one as the object that agrees with its file. -/
example :
    let a := ofMessages [.loadedLinkedObject (loadInto 1 1),
      .loadedLinkedObject (loadInto 2 2), symbolsOf 0]
    a.spaces.mappings.map Mapping.isLoaded = [true, true] ∧
      (a.applyUnloaded ⟨(loadInto 2 2).threads, 20, ⟨"/bin/a", 2⟩⟩).refusal =
        some (.notLoaded "/bin/a" ⟨"a", 2, none, none⟩) := by
  decide +kernel

end Application
end CudaProfile
