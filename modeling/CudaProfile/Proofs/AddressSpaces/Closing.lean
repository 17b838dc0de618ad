import CudaProfile.Proofs.AddressSpaces.Unloading
/-!
# Open mappings and their ends

A mapping is open while it ends at the last time of all. Unloading an object
from a thread looks the mappings of the two up in an index, which symbol tables
rewrite, and gives exactly the open ones among them a new end. From then on the
two have no open mapping until the object is loaded again, unless the new end is
the last time itself: such an unload succeeds and changes nothing.
-/

namespace CudaProfile

def Mapping.OpenIn (thread : ThreadName) (object : Handle) (m : Mapping) :
    Prop :=
  m.thread = thread ∧ m.object.handle = object ∧ m.interval.hi = Time.last

instance (thread : ThreadName) (object : Handle) (m : Mapping) :
    Decidable (m.OpenIn thread object) :=
  inferInstanceAs (Decidable (_ ∧ _ ∧ _))

theorem Mapping.openIn_iff {thread : ThreadName} {object : Handle}
    {m : Mapping} :
    m.OpenIn thread object ↔
      m.thread = thread ∧ m.object.handle = object ∧ m.isLoaded = true := by
  unfold OpenIn isLoaded
  rw [decide_eq_true_iff]

namespace AddressSpaces

/-! ## Exactly the open mappings -/

/-- Some mapping of an object in a thread is open. -/
def HasOpen (s : AddressSpaces) (thread : ThreadName) (object : Handle) :
    Prop :=
  ∃ m ∈ s.mappings, m.OpenIn thread object

instance (s : AddressSpaces) (thread : ThreadName) (object : Handle) :
    Decidable (s.HasOpen thread object) :=
  inferInstanceAs (Decidable (∃ m ∈ s.mappings, _))

def close (s : AddressSpaces) (thread : ThreadName) (object : Handle)
    (time : Time) : AddressSpaces :=
  { s with
    mappings := s.mappings.map fun m =>
      if m.OpenIn thread object then m.unloadedAt time else m }

section Unload

variable {s : AddressSpaces} {thread : ThreadName} {object : LinkedObject}
  {time : Time}

theorem Indexed.mem_openMappings_iff (h : Indexed s) {number : Nat}
    {m : Mapping} (hm : s.mappings[number]? = some m) (thread : ThreadName)
    (object : LinkedObject) :
    number ∈ s.openMappings thread object ↔ m.OpenIn thread object.handle := by
  rw [h.mem_openMappings hm, and_assoc, Mapping.openIn_iff]

theorem Indexed.openMappings_eq_nil_iff (h : Indexed s) (thread : ThreadName)
    (object : LinkedObject) :
    s.openMappings thread object = [] ↔ ¬s.HasOpen thread object.handle := by
  rw [List.eq_nil_iff_forall_not_mem]
  constructor
  · intro hnone hopen
    rcases hopen with ⟨m, hmem, hm⟩
    rcases List.mem_iff_getElem?.mp hmem with ⟨number, hnumber⟩
    exact hnone number ((h.mem_openMappings_iff hnumber thread object).mpr hm)
  · intro hclosed number hmem
    cases hnumber : s.mappings[number]? with
    | none =>
        have hloaded := (List.mem_filter.mp hmem).2
        rw [hnumber] at hloaded
        cases hloaded
    | some m =>
        exact hclosed ⟨m, List.mem_of_getElem? hnumber,
          (h.mem_openMappings_iff hnumber thread object).mp hmem⟩

theorem Indexed.unload_eq (h : Indexed s) (thread : ThreadName)
    (object : LinkedObject) (time : Time) :
    s.unload thread object time =
      if s.HasOpen thread object.handle then
        .done (s.close thread object.handle time)
      else .refused s (.notLoaded object.file.path thread) := by
  have hnil := h.openMappings_eq_nil_iff thread object
  unfold AddressSpaces.unload
  split
  · next hnone =>
    rw [if_neg (hnil.mp hnone)]
  · next hsome =>
    rw [if_pos (not_not.mp fun hclosed => hsome (hnil.mpr hclosed))]
    unfold close
    congr 2
    apply List.ext_getElem?
    intro number
    rw [getElem?_foldl_unloadedAt, List.getElem?_map]
    cases hm : s.mappings[number]? with
    | none =>
        simp
    | some m =>
        by_cases hopen : m.OpenIn thread object.handle
        · simp [(h.mem_openMappings_iff hm thread object).mpr hopen, hopen]
        · simp [mt (h.mem_openMappings_iff hm thread object).mp hopen, hopen]

end Unload

/-! ## Openness after unloading -/

section Closing

variable {s : AddressSpaces} {thread : ThreadName} {object : Handle}
  {time : Time}

theorem openIn_closed_iff {m : Mapping} {other : ThreadName} {handle : Handle} :
    Mapping.OpenIn thread object
        (if m.OpenIn other handle then m.unloadedAt time else m) ↔
      m.OpenIn thread object ∧
        (other = thread ∧ handle = object → time = Time.last) := by
  by_cases hclosed : m.OpenIn other handle
  · rw [if_pos hclosed]
    rcases hclosed with ⟨rfl, rfl, hlast⟩
    constructor
    · intro hopen
      exact ⟨⟨hopen.1, hopen.2.1, hlast⟩, fun _ => hopen.2.2⟩
    · intro hopen
      rcases hopen with ⟨⟨hthread, hobject, _⟩, htime⟩
      exact ⟨hthread, hobject, htime ⟨hthread, hobject⟩⟩
  · rw [if_neg hclosed]
    constructor
    · intro hopen
      refine ⟨hopen, ?_⟩
      rintro ⟨rfl, rfl⟩
      exact absurd hopen hclosed
    · intro hopen
      exact hopen.1

theorem hasOpen_close_iff {other : ThreadName} {handle : Handle} :
    (s.close other handle time).HasOpen thread object ↔
      s.HasOpen thread object ∧
        (other = thread ∧ handle = object → time = Time.last) := by
  constructor
  · intro hopen
    rcases hopen with ⟨n, hn, hopen⟩
    rcases List.mem_map.mp hn with ⟨m, hm, rfl⟩
    rcases openIn_closed_iff.mp hopen with ⟨hopen, htime⟩
    exact ⟨⟨m, hm, hopen⟩, htime⟩
  · intro hopen
    rcases hopen with ⟨⟨m, hm, hopen⟩, htime⟩
    exact ⟨_, List.mem_map_of_mem hm, openIn_closed_iff.mpr ⟨hopen, htime⟩⟩

theorem hasOpen_insert_iff {m : Mapping} :
    (s.insert m).HasOpen thread object ↔
      s.HasOpen thread object ∨ m.OpenIn thread object := by
  unfold HasOpen AddressSpaces.insert
  simp only [List.mem_append, List.mem_singleton, or_and_right, exists_or,
    exists_eq_left]

theorem Indexed.hasOpen_unload_iff (h : Indexed s) (other : ThreadName)
    (given : LinkedObject) (time : Time) :
    (s.unload other given time).state.HasOpen thread object ↔
      s.HasOpen thread object ∧
        (other = thread ∧ given.handle = object → time = Time.last) := by
  rw [h.unload_eq]
  by_cases hopen : s.HasOpen other given.handle
  · rw [if_pos hopen]
    exact hasOpen_close_iff
  · rw [if_neg hopen]
    refine (and_iff_left_of_imp ?_).symm
    intro hsame
    rintro ⟨rfl, rfl⟩
    exact absurd hsame hopen

/-- After an object was unloaded from a thread, some mapping of the two is open
exactly if the last time was given to those that were. -/
theorem Indexed.hasOpen_of_unload (h : Indexed s) {given : LinkedObject}
    (hdone : (s.unload thread given time).refusal = none) :
    (s.unload thread given time).state.HasOpen thread given.handle ↔
      time = Time.last := by
  rw [h.hasOpen_unload_iff]
  rw [h.unload_eq] at hdone
  split at hdone
  · next hopen =>
    constructor
    · intro htime
      exact htime.2 ⟨rfl, rfl⟩
    · intro htime
      exact ⟨hopen, fun _ => htime⟩
  · cases hdone

end Closing

/-- In every application that is reached, unloading an object from a thread
succeeds exactly if some mapping of the two ends at the last time. It then gives
each of those the new end and leaves everything else as it was, and otherwise it
leaves the address spaces as they were. -/
theorem unload_ends_open_mappings {a : Application}
    (h : Application.Reached a) (thread : ThreadName) (object : LinkedObject)
    (time : Time) :
    let s := a.spaces
    let unloaded := s.unload thread object time
    let isOpen (m : Mapping) : Prop :=
      m.thread = thread ∧ m.object.handle = object.handle ∧
        m.interval.hi = Time.last
    (unloaded.refusal = none ↔ ∃ m ∈ s.mappings, isOpen m) ∧
    (unloaded.refusal = none →
      unloaded.state =
        { s with
          mappings := s.mappings.map fun m =>
            if isOpen m then { m with interval := ⟨m.interval.lo, time⟩ }
            else m }) ∧
    (unloaded.refusal ≠ none →
      unloaded = .refused s (.notLoaded object.file.path thread)) := by
  intro s unloaded isOpen
  have hunloaded : unloaded = if s.HasOpen thread object.handle then _ else _ :=
    (Application.sound_of_reached h).indexed.unload_eq thread object time
  by_cases hopen : s.HasOpen thread object.handle
  · rw [if_pos hopen] at hunloaded
    rw [hunloaded]
    exact ⟨iff_of_true rfl hopen, fun _ => rfl,
      fun hrefused => absurd rfl hrefused⟩
  · rw [if_neg hopen] at hunloaded
    rw [hunloaded]
    exact ⟨iff_of_false (Option.some_ne_none _) hopen,
      fun hdone => absurd hdone (Option.some_ne_none _), fun _ => rfl⟩

def mappedAgain : Application :=
  let thread (pid : Int64) : ThreadRecord := ⟨0, "a", pid, false, 0, -1⟩
  let file : FileName := ⟨"/bin/a", 0⟩
  let a := Application.applyGroup ∅
    ⟨thread 1, [⟨file, ⟨0, 16⟩, ⟨5, 9⟩, true⟩]⟩
  let b := a.applyLoaded ⟨[thread 1, thread 2], 10, ⟨32, 48⟩, file, true⟩
  let c := b.applyLoaded ⟨[thread 1], 12, ⟨64, 80⟩, file, true⟩
  (c.applySymbolTable ⟨file, [⟨"main", []⟩], [], []⟩).state

theorem unload_ends_open_mappings_after_symbols :
    let unloaded := mappedAgain.spaces.unload ⟨"a", 1, none, none⟩
      ⟨⟨1, 0⟩, ⟨"/bin/a", 0⟩⟩ 20
    Application.Reached mappedAgain ∧ unloaded.refusal = none ∧
      unloaded.state.mappings.map Mapping.interval =
        [⟨5, 8⟩, ⟨10, 20⟩, ⟨10, Time.last⟩, ⟨12, 20⟩] := by
  intro unloaded
  have hreached : Application.Reached mappedAgain :=
    .symbolTable (.loaded (.loaded (.group (.start ∅) _) _) _) _
  rcases unload_ends_open_mappings hreached ⟨"a", 1, none, none⟩
    ⟨⟨1, 0⟩, ⟨"/bin/a", 0⟩⟩ 20 with ⟨hdone, hstate, _⟩
  have hdone : unloaded.refusal = none := hdone.mpr (by decide +kernel)
  refine ⟨hreached, hdone, ?_⟩
  rw [show unloaded.state = _ from hstate hdone]
  decide +kernel

end AddressSpaces

/-! ## Loading and unloading one after the other -/

namespace Application

open AddressSpaces

inductive Call where
  | load (thread : ThreadName) (object : LinkedObject) (range : AddressRange)
      (time : Time) (executable : Bool)
  | loaded (r : LoadedRecord)
  | unload (thread : ThreadName) (object : LinkedObject) (time : Time)
  | unloaded (r : UnloadedRecord)

def step (a : Application) : Call → Outcome Application
  | .load thread object range time executable =>
      .done (a.withSpaces (a.spaces.load thread object range time executable))
  | .loaded r => .done (a.applyLoaded r)
  | .unload thread object time =>
      (a.spaces.unload thread object time).map a.withSpaces
  | .unloaded r => a.applyUnloaded r

def afterCalls (a : Application) (calls : List Call) : Application :=
  calls.foldl (fun a call => (a.step call).state) a

def Call.loads (thread : ThreadName) (object : Handle) (a : Application) :
    Call → Bool
  | .load other given .. => other = thread ∧ given.handle = object
  | .loaded r =>
      (r.threads.any fun other => other.name = thread) ∧
        (a.objectOf r.object).2.handle = object
  | .unload .. | .unloaded _ => false

def loadsAgain (thread : ThreadName) (object : Handle) :
    Application → List Call → Bool
  | _, [] => false
  | a, call :: rest =>
      call.loads thread object a ||
        loadsAgain thread object (a.step call).state rest

/-- A call unloads an object from a thread with success. A record does so for
all its threads up to the first that is refused. -/
inductive Call.Unloads (a : Application) (thread : ThreadName)
    (object : LinkedObject) (time : Time) : Call → Prop
  | unload (hdone : (a.spaces.unload thread object time).refusal = none) :
      Unloads a thread object time (.unload thread object time)
  | unloaded {file : FileName} {before after : List ThreadRecord}
      {other : ThreadRecord} (hfile : a.spaces.object? file = some object)
      (hthread : other.name = thread)
      (hdone : (a.applyUnloaded ⟨before ++ [other], time, file⟩).refusal =
        none) :
      Unloads a thread object time
        (.unloaded ⟨before ++ other :: after, time, file⟩)

section Calls

variable {a : Application} {thread : ThreadName} {object : LinkedObject}
  {time : Time}

theorem indexed_objectOf (h : Indexed a.spaces) (file : FileName) :
    Indexed (a.objectOf file).1.spaces := by
  unfold objectOf
  split
  · exact h
  · exact h.congr rfl rfl rfl rfl

theorem openIn_loaded {other : ThreadName} {handle : Handle}
    (range : AddressRange) (executable : Bool) :
    Mapping.OpenIn other handle
        ⟨thread, object, range, ⟨time, Time.last⟩, executable⟩ ↔
      thread = other ∧ object.handle = handle := by
  unfold Mapping.OpenIn
  simp

theorem indexed_loads {s : AddressSpaces} (h : Indexed s)
    (object : LinkedObject) (range : AddressRange) (time : Time)
    (executable : Bool) (threads : List ThreadRecord) :
    let loaded := threads.foldl (fun spaces t =>
      spaces.load t.name object range time executable) s
    Indexed loaded ∧ ∀ other handle, loaded.HasOpen other handle ↔
      s.HasOpen other handle ∨
        (threads.any fun t => t.name = other) = true ∧
          object.handle = handle := by
  induction threads generalizing s with
  | nil =>
      refine ⟨h, ?_⟩
      intro other handle
      simp
  | cons t rest ih =>
      rcases ih (h.insert ⟨t.name, object, range, ⟨time, Time.last⟩,
        executable⟩) with ⟨hindexed, hopen⟩
      refine ⟨hindexed, ?_⟩
      intro other handle
      refine (hopen other handle).trans ?_
      rw [hasOpen_insert_iff, openIn_loaded, List.any_cons, Bool.or_eq_true,
        decide_eq_true_iff, or_assoc, or_and_right]

theorem applyUnloaded_of_known {file : FileName}
    (h : a.spaces.object? file = some object) (threads : List ThreadRecord)
    (time : Time) :
    a.applyUnloaded ⟨threads, time, file⟩ =
      (Outcome.forEach (fun spaces t =>
        AddressSpaces.unload spaces (ThreadRecord.name t) object time)
        a.spaces threads).map a.withSpaces := by
  unfold applyUnloaded
  rw [h]

theorem spaces_applyUnloaded {motive : AddressSpaces → Prop}
    {r : UnloadedRecord}
    (hstep : ∀ s t object, motive s →
      motive (AddressSpaces.unload s t object r.time).state)
    (h : motive a.spaces) : motive (a.applyUnloaded r).state.spaces := by
  rcases r with ⟨threads, time, file⟩
  cases hobject : a.spaces.object? file with
  | none =>
      unfold applyUnloaded
      rw [hobject]
      exact h
  | some object =>
      rw [applyUnloaded_of_known hobject]
      exact Outcome.forEach_induction
        (fun s t hs => hstep s (ThreadRecord.name t) object hs) h threads

theorem indexed_step (h : Indexed a.spaces) (call : Call) :
    Indexed (a.step call).state.spaces := by
  cases call with
  | load thread object range time executable =>
      exact h.insert _
  | loaded r =>
      exact (indexed_loads (indexed_objectOf h r.object) _ _ _ _ _).1
  | unload thread object time =>
      exact h.unload thread object time
  | unloaded r =>
      exact spaces_applyUnloaded (fun s t object hs => hs.unload t object _) h

theorem indexed_afterCalls (h : Indexed a.spaces) (calls : List Call) :
    Indexed (a.afterCalls calls).spaces := by
  induction calls generalizing a with
  | nil =>
      exact h
  | cons call rest ih =>
      exact ih (indexed_step h call)

theorem hasOpen_objectOf {handle : Handle} (file : FileName) :
    (a.objectOf file).1.spaces.HasOpen thread handle ↔
      a.spaces.HasOpen thread handle := by
  unfold HasOpen
  rw [mappings_objectOf]

theorem hasOpen_of_step (h : Indexed a.spaces) {call : Call} {handle : Handle}
    (hloads : call.loads thread handle a = false)
    (hopen : (a.step call).state.spaces.HasOpen thread handle) :
    a.spaces.HasOpen thread handle := by
  cases call with
  | load other given range time executable =>
      rcases hasOpen_insert_iff.mp hopen with hopen | hnew
      · exact hopen
      · exact absurd (openIn_loaded range executable |>.mp hnew)
          (of_decide_eq_false hloads)
  | loaded r =>
      have hloaded := indexed_loads (indexed_objectOf h r.object)
        (a.objectOf r.object).2 (.ofHalfOpen r.range) r.time r.executable
        r.threads
      rcases (hloaded.2 thread handle).mp hopen with hopen | hnew
      · exact (hasOpen_objectOf r.object).mp hopen
      · exact absurd hnew (of_decide_eq_false hloads)
  | unload other given time =>
      exact ((h.hasOpen_unload_iff other given time).mp hopen).1
  | unloaded r =>
      have hkept := spaces_applyUnloaded (a := a) (r := r)
        (motive := fun s => Indexed s ∧
          (s.HasOpen thread handle → a.spaces.HasOpen thread handle))
        (fun s t object hs => ⟨hs.1.unload t object r.time, fun hopen =>
          hs.2 ((hs.1.hasOpen_unload_iff t object r.time).mp hopen).1⟩)
        ⟨h, id⟩
      exact hkept.2 hopen

theorem hasOpen_of_loads (h : Indexed a.spaces) {call : Call} {handle : Handle}
    (hloads : call.loads thread handle a = true) :
    (a.step call).state.spaces.HasOpen thread handle := by
  cases call with
  | load other given range time executable =>
      exact hasOpen_insert_iff.mpr (Or.inr ((openIn_loaded range executable).mpr
        (of_decide_eq_true hloads)))
  | loaded r =>
      have hloaded := indexed_loads (indexed_objectOf h r.object)
        (a.objectOf r.object).2 (.ofHalfOpen r.range) r.time r.executable
        r.threads
      exact (hloaded.2 thread handle).mpr (Or.inr (of_decide_eq_true hloads))
  | _ =>
      cases hloads

theorem not_hasOpen_afterCalls (h : Indexed a.spaces) {handle : Handle}
    (hclosed : ¬a.spaces.HasOpen thread handle) {calls : List Call}
    (hloads : loadsAgain thread handle a calls = false) :
    ¬(a.afterCalls calls).spaces.HasOpen thread handle := by
  induction calls generalizing a with
  | nil =>
      exact hclosed
  | cons call rest ih =>
      rcases Bool.or_eq_false_iff.mp hloads with ⟨hcall, hrest⟩
      exact ih (indexed_step h call)
        (fun hopen => hclosed (hasOpen_of_step h hcall hopen)) hrest

theorem hasOpen_of_unloads (h : Indexed a.spaces) {call : Call}
    (hcall : call.Unloads a thread object time) :
    (a.step call).state.spaces.HasOpen thread object.handle ↔
      time = Time.last := by
  cases hcall with
  | unload hdone =>
      exact h.hasOpen_of_unload hdone
  | @unloaded file before after other hfile hthread hdone =>
      subst hthread
      change (a.applyUnloaded _).state.spaces.HasOpen _ _ ↔ _
      rw [applyUnloaded_of_known hfile] at hdone ⊢
      simp only [Outcome.map] at hdone ⊢
      rcases Outcome.exists_of_forEach_append hdone with
        ⟨reached, hbefore, hother⟩
      rw [Outcome.forEach_singleton] at hother
      rw [Outcome.forEach_append_of_done hbefore,
        Outcome.forEach_cons_of_done (Outcome.eq_done_iff.mpr ⟨rfl, hother⟩)]
      have hstep : ∀ (s : AddressSpaces) (t : ThreadRecord), Indexed s →
          Indexed (s.unload t.name object time).state :=
        fun _ t hs => hs.unload t.name object time
      have hindexed := Outcome.forEach_induction hstep h before
      rw [hbefore] at hindexed
      -- What comes after gives the same time to further mappings.
      have hlater : ∀ (s : AddressSpaces) (t : ThreadRecord),
          Indexed s ∧
              (s.HasOpen other.name object.handle ↔ time = Time.last) →
            Indexed (s.unload t.name object time).state ∧
              ((s.unload t.name object time).state.HasOpen other.name
                object.handle ↔ time = Time.last) := by
        intro s t hs
        refine ⟨hstep s t hs.1, ?_⟩
        rw [hs.1.hasOpen_unload_iff, hs.2]
        exact and_iff_left_of_imp fun hlast _ => hlast
      exact (Outcome.forEach_induction hlater
        ⟨hstep reached other hindexed, hindexed.hasOpen_of_unload hother⟩
        after).2

theorem close_last (s : AddressSpaces) (thread : ThreadName)
    (object : Handle) : s.close thread object Time.last = s := by
  have hsame : (s.mappings.map fun m =>
      if m.OpenIn thread object then m.unloadedAt Time.last else m) =
        s.mappings.map id := by
    apply List.map_congr_left
    intro m _
    by_cases hopen : m.OpenIn thread object
    · rw [if_pos hopen, Mapping.unloadedAt, ← hopen.2.2]
      rfl
    · exact if_neg hopen
  unfold close
  rw [hsame, List.map_id]

/-- Whatever is unloaded at the last time, nothing changes. -/
theorem spaces_of_unloads_last (h : Indexed a.spaces) {call : Call}
    (hcall : call.Unloads a thread object Time.last) :
    (a.step call).state.spaces = a.spaces := by
  have hsame : ∀ (t : ThreadName) (given : LinkedObject),
      (a.spaces.unload t given Time.last).state = a.spaces := by
    intro t given
    rw [h.unload_eq, close_last]
    split
    · rfl
    · rfl
  cases hcall with
  | unload hdone =>
      exact hsame thread object
  | unloaded hfile hthread hdone =>
      apply spaces_applyUnloaded (motive := fun s => s = a.spaces)
      · intro s t given hs
        rw [hs]
        exact hsame t given
      · rfl

end Calls

/-- After an object was unloaded from a thread, no mapping of the two is open,
and to unload it again is refused until it is loaded into the thread again. Only
what is unloaded at the last time stays open, as if it had not been unloaded. -/
theorem unloaded_until_loaded_again (symbols : SymbolStore)
    (before : List Call) {call : Call} {thread : ThreadName}
    {object : LinkedObject} {time : Time}
    (hcall : call.Unloads (afterCalls ⟨symbols, ∅⟩ before) thread object
      time) :
    let a := afterCalls ⟨symbols, ∅⟩ (before ++ [call])
    ((∃ m ∈ a.spaces.mappings, m.thread = thread ∧
      m.object.handle = object.handle ∧ m.isLoaded = true) ↔
        time = Time.last) ∧
    (time ≠ Time.last → ∀ since : List Call,
      loadsAgain thread object.handle a since = false →
        let s := (a.afterCalls since).spaces
        let error := Error.notLoaded object.file.path thread
        error.kind = .stateViolation ∧
          ∀ later, s.unload thread object later = .refused s error) ∧
    (time = Time.last →
      a.spaces = (afterCalls ⟨symbols, ∅⟩ before).spaces ∧
        ∀ later, (a.spaces.unload thread object later).refusal = none) ∧
    ∀ (since : List Call) (again : Call),
      again.loads thread object.handle (a.afterCalls since) = true →
        ∀ later, (((a.afterCalls since).step again).state.spaces.unload thread
          object later).refusal = none := by
  intro a
  have hbefore : Indexed (afterCalls ⟨symbols, ∅⟩ before).spaces :=
    indexed_afterCalls indexed_empty before
  have ha : a = ((afterCalls ⟨symbols, ∅⟩ before).step call).state :=
    List.foldl_append
  have hindexed : Indexed a.spaces := ha ▸ indexed_step hbefore call
  have hopen : a.spaces.HasOpen thread object.handle ↔ time = Time.last :=
    ha ▸ hasOpen_of_unloads hbefore hcall
  refine ⟨?_, ?_, ?_, ?_⟩
  · simp only [← Mapping.openIn_iff]
    exact hopen
  · intro htime since hsince
    refine ⟨rfl, ?_⟩
    intro later
    rw [(indexed_afterCalls hindexed since).unload_eq,
      if_neg (not_hasOpen_afterCalls hindexed (mt hopen.mp htime) hsince)]
  · intro htime
    refine ⟨?_, ?_⟩
    · subst htime
      exact ha ▸ spaces_of_unloads_last hbefore hcall
    · intro later
      rw [hindexed.unload_eq, if_pos (hopen.mpr htime)]
      rfl
  · intro since again hagain later
    have hsince := indexed_afterCalls hindexed since
    rw [(indexed_step hsince again).unload_eq,
      if_pos (hasOpen_of_loads hsince hagain)]
    rfl

def handed : SymbolStore × LinkedObject :=
  SymbolStore.addObject ∅ (.new ⟨"/bin/a", 0⟩)

def loadedTwice : List Call :=
  [.load ⟨"a", 1, none, none⟩ handed.2 ⟨0, 15⟩ 10 false,
    .load ⟨"a", 2, none, none⟩ handed.2 ⟨0, 15⟩ 10 false,
    .load ⟨"a", 1, none, none⟩ handed.2 ⟨64, 79⟩ 12 false]

/-- It is unloaded from the first thread at time zero, which is before it was
loaded, and then from the other thread, into which it is loaded again. -/
theorem unloaded_until_loaded_again_at_zero :
    let thread : ThreadName := ⟨"a", 1, none, none⟩
    let other : ThreadName := ⟨"a", 2, none, none⟩
    let call := Call.unload thread handed.2 0
    let since := [Call.unload other handed.2 20,
      Call.load other handed.2 ⟨0, 15⟩ 30 false]
    let a := afterCalls ⟨handed.1, ∅⟩ (loadedTwice ++ [call])
    let s := (a.afterCalls since).spaces
    call.Unloads (afterCalls ⟨handed.1, ∅⟩ loadedTwice) thread handed.2 0 ∧
      s.mappings.map Mapping.isLoaded = [false, false, false, true] ∧
      ∀ later, s.unload thread handed.2 later =
        .refused s (.notLoaded "/bin/a" thread) := by
  intro thread other call since a s
  have hcall : call.Unloads (afterCalls ⟨handed.1, ∅⟩ loadedTwice) thread
      handed.2 0 :=
    .unload (by decide +kernel)
  rcases unloaded_until_loaded_again handed.1 loadedTwice hcall with
    ⟨_, hrefused, _, _⟩
  refine ⟨hcall, by decide +kernel, ?_⟩
  exact (hrefused (by decide) since (by decide +kernel)).2

/-- An object that is unloaded at the last time is still open, and can be
unloaded again. -/
theorem unload_at_last_time_closes_nothing :
    ¬∀ (symbols : SymbolStore) (before : List Call) (call : Call)
        (thread : ThreadName) (object : LinkedObject) (time : Time),
      call.Unloads (afterCalls ⟨symbols, ∅⟩ before) thread object time →
        let s := (afterCalls ⟨symbols, ∅⟩ (before ++ [call])).spaces
        (¬∃ m ∈ s.mappings, m.thread = thread ∧
          m.object.handle = object.handle ∧ m.isLoaded = true) ∧
        ∀ later, (s.unload thread object later).refusal ≠ none := by
  intro h
  have hcall : (Call.unload ⟨"a", 1, none, none⟩ handed.2 Time.last).Unloads
      (afterCalls ⟨handed.1, ∅⟩ loadedTwice) ⟨"a", 1, none, none⟩ handed.2
      Time.last :=
    .unload (by decide +kernel)
  rcases h handed.1 loadedTwice _ _ _ _ hcall with ⟨_, hrefused⟩
  exact hrefused 20 (by decide +kernel)

end Application
end CudaProfile
