import CudaProfile.Proofs.AddressSpaces.Closing
/-!
# Where a record of unloads stops

A record names threads to unload an object from, one after the other. It stops
at the first thread in which nothing of the object is open; a thread that is
named twice is such a thread the second time, unless its mappings were ended at
the last time of all. What was ended before stays ended, so a refused record
leaves the mappings as they were only if it stops at its first thread, or if its
time is the last one.
-/

namespace CudaProfile

theorem Mapping.unloadedAt_unloadedAt (m : Mapping) (time : Time) :
    (m.unloadedAt time).unloadedAt time = m.unloadedAt time :=
  rfl

namespace AddressSpaces

/-! ## Several threads -/

def OpenInSome (threads : List ThreadName) (object : Handle) (m : Mapping) :
    Prop :=
  m.thread ∈ threads ∧ m.object.handle = object ∧ m.interval.hi = Time.last

instance (threads : List ThreadName) (object : Handle) (m : Mapping) :
    Decidable (OpenInSome threads object m) :=
  inferInstanceAs (Decidable (_ ∧ _ ∧ _))

/-- Address spaces in which the open mappings of an object in several threads
end at a time. -/
def closeAll (s : AddressSpaces) (threads : List ThreadName) (object : Handle)
    (time : Time) : AddressSpaces :=
  { s with
    mappings := s.mappings.map fun m =>
      if OpenInSome threads object m then m.unloadedAt time else m }

section CloseAll

variable {s : AddressSpaces} {object : Handle} {time : Time}

theorem closeAll_nil (s : AddressSpaces) (object : Handle) (time : Time) :
    s.closeAll [] object time = s := by
  have hsame : (s.mappings.map fun m =>
      if OpenInSome [] object m then m.unloadedAt time else m) =
        s.mappings.map id := by
    apply List.map_congr_left
    intro m _
    exact if_neg fun hopen => List.not_mem_nil hopen.1
  unfold closeAll
  rw [hsame, List.map_id]

theorem closeAll_cons (s : AddressSpaces) (thread : ThreadName)
    (rest : List ThreadName) (object : Handle) (time : Time) :
    s.closeAll (thread :: rest) object time =
      (s.close thread object time).closeAll rest object time := by
  unfold closeAll close
  simp only [List.map_map]
  congr 1
  apply List.map_congr_left
  intro m _
  rw [Function.comp_apply]
  by_cases hfirst : m.OpenIn thread object
  · have hboth : OpenInSome (thread :: rest) object m := by
      rcases hfirst with ⟨rfl, hobject, hlast⟩
      exact ⟨List.mem_cons_self, hobject, hlast⟩
    -- What is closed already may be closed once more, at the same time.
    rw [if_pos hboth, if_pos hfirst, Mapping.unloadedAt_unloadedAt, ite_self]
  · have hrest : OpenInSome (thread :: rest) object m ↔
        OpenInSome rest object m := by
      unfold OpenInSome
      rw [List.mem_cons, or_and_right, or_iff_right]
      rintro ⟨rfl, hobject, hlast⟩
      exact hfirst ⟨rfl, hobject, hlast⟩
    rw [if_neg hfirst]
    exact if_congr hrest rfl rfl

theorem hasOpen_closeAll_iff {threads : List ThreadName}
    {thread : ThreadName} :
    (s.closeAll threads object time).HasOpen thread object ↔
      s.HasOpen thread object ∧ (thread ∈ threads → time = Time.last) := by
  induction threads generalizing s with
  | nil =>
      rw [closeAll_nil]
      simp
  | cons first rest ih =>
      rw [closeAll_cons, ih, hasOpen_close_iff, and_assoc, List.mem_cons,
        or_imp]
      apply and_congr_right
      intro _
      apply and_congr_left
      intro _
      simp only [and_true, eq_comm]

theorem mappings_closeAll_iff {first : ThreadName} {rest : List ThreadName}
    (hopen : s.HasOpen first object) :
    (s.closeAll (first :: rest) object time).mappings = s.mappings ↔
      time = Time.last := by
  constructor
  · intro hsame
    have hstill : (s.closeAll (first :: rest) object time).HasOpen first
        object := by
      unfold HasOpen
      rw [hsame]
      exact hopen
    exact (hasOpen_closeAll_iff.mp hstill).2 List.mem_cons_self
  · intro hlast
    subst hlast
    have hid : ∀ m ∈ s.mappings,
        (if OpenInSome (first :: rest) object m then m.unloadedAt Time.last
          else m) = id m := by
      intro m _
      split
      · next hm =>
        rw [Mapping.unloadedAt, ← hm.2.2]
        rfl
      · rfl
    unfold closeAll
    simp only
    rw [List.map_congr_left hid, List.map_id]

end CloseAll

/-! ## One thread after the other -/

def unloadEach (s : AddressSpaces) (threads : List ThreadRecord)
    (object : LinkedObject) (time : Time) : Outcome AddressSpaces :=
  Outcome.forEach (fun spaces t =>
    AddressSpaces.unload spaces (ThreadRecord.name t) object time) s threads

section UnloadEach

variable {s : AddressSpaces} {threads : List ThreadRecord}
  {object : LinkedObject} {time : Time}

theorem Indexed.unloadEach_cons_of_open (h : Indexed s) {first : ThreadRecord}
    (hopen : s.HasOpen first.name object.handle) (rest : List ThreadRecord)
    (time : Time) :
    Indexed (s.close first.name object.handle time) ∧
      s.unloadEach (first :: rest) object time =
        (s.close first.name object.handle time).unloadEach rest object time := by
  have hfirst := h.unload_eq first.name object time
  rw [if_pos hopen] at hfirst
  have hnext := h.unload first.name object time
  rw [hfirst] at hnext
  exact ⟨hnext, Outcome.forEach_cons_of_done hfirst rest⟩

theorem Indexed.unloadEach_cons_of_not_open (h : Indexed s)
    {first : ThreadRecord} (hclosed : ¬s.HasOpen first.name object.handle)
    (rest : List ThreadRecord) :
    s.unloadEach (first :: rest) object time =
      .refused s (.notLoaded object.file.path first.name) := by
  have hfirst := h.unload_eq first.name object time
  rw [if_neg hclosed] at hfirst
  refine (Outcome.forEach_cons_of_refused ?_ rest).trans hfirst
  rw [hfirst]
  exact Option.some_ne_none _

/-- An object can be unloaded from threads if it is open in all of them and none
is named twice, or the time is the last one. -/
theorem Indexed.unloadEach_done_iff (h : Indexed s) :
    (s.unloadEach threads object time).refusal = none ↔
      (∀ t ∈ threads, s.HasOpen t.name object.handle) ∧
        ((threads.map ThreadRecord.name).Nodup ∨ time = Time.last) := by
  induction threads generalizing s with
  | nil =>
      refine iff_of_true rfl ⟨?_, Or.inl List.nodup_nil⟩
      intro t ht
      cases ht
  | cons first rest ih =>
      by_cases hopen : s.HasOpen first.name object.handle
      · rcases h.unloadEach_cons_of_open hopen rest time with
          ⟨hnext, heq⟩
        rw [heq, ih hnext, List.forall_mem_cons, List.map_cons,
          List.nodup_cons]
        simp only [hasOpen_close_iff, and_true, List.mem_map]
        by_cases hlast : time = Time.last
        · simp [hlast, hopen]
        · simp only [hlast, imp_false, or_false, hopen, true_and]
          grind
      · rw [h.unloadEach_cons_of_not_open hopen]
        refine iff_of_false (Option.some_ne_none _) ?_
        intro hall
        exact hopen (hall.1 first List.mem_cons_self)

theorem Indexed.unloadEach_of_done (h : Indexed s)
    (hdone : (s.unloadEach threads object time).refusal = none) :
    s.unloadEach threads object time =
      .done (s.closeAll (threads.map ThreadRecord.name) object.handle time) := by
  induction threads generalizing s with
  | nil =>
      exact congrArg Outcome.done (closeAll_nil s _ _).symm
  | cons first rest ih =>
      have hopen := (h.unloadEach_done_iff.mp hdone).1 first List.mem_cons_self
      rcases h.unloadEach_cons_of_open hopen rest time with
        ⟨hnext, heq⟩
      rw [heq] at hdone ⊢
      rw [ih hnext hdone, List.map_cons, closeAll_cons]

theorem Indexed.unloadEach_of_refused (h : Indexed s)
    (hrefused : (s.unloadEach threads object time).refusal ≠ none) :
    ∃ before t after, threads = before ++ t :: after ∧
      (∀ earlier ∈ before, s.HasOpen earlier.name object.handle) ∧
      (s.HasOpen t.name object.handle →
        t.name ∈ before.map ThreadRecord.name ∧ time ≠ Time.last) ∧
      s.unloadEach threads object time =
        .refused
          (s.closeAll (before.map ThreadRecord.name) object.handle time)
          (.notLoaded object.file.path t.name) := by
  rcases Outcome.refusal_forEach_iff.mp hrefused with
    ⟨before, t, after, reached, rfl, hbefore, ht⟩
  have hdone : (s.unloadEach before object time).refusal = none :=
    (Outcome.eq_done_iff.mp hbefore).2
  have hreached : reached =
      s.closeAll (before.map ThreadRecord.name) object.handle time :=
    congrArg Outcome.state (hbefore.symm.trans (h.unloadEach_of_done hdone))
  have hindexed : Indexed reached := by
    have hkept := Outcome.forEach_induction
      (fun (s : AddressSpaces) (t : ThreadRecord) (hs : Indexed s) =>
        hs.unload t.name object time) h before
    rw [hbefore] at hkept
    exact hkept
  have hclosed : ¬reached.HasOpen t.name object.handle := by
    intro hopen
    rw [hindexed.unload_eq, if_pos hopen] at ht
    exact ht rfl
  refine ⟨before, t, after, rfl, (h.unloadEach_done_iff.mp hdone).1, ?_, ?_⟩
  · intro hopen
    rw [hreached, hasOpen_closeAll_iff] at hclosed
    by_contra hneither
    exact hclosed ⟨hopen, fun hmem =>
      not_not.mp fun hne => hneither ⟨hmem, hne⟩⟩
  · refine (Outcome.forEach_append_of_done hbefore _).trans ?_
    refine (hindexed.unloadEach_cons_of_not_open hclosed after).trans ?_
    rw [hreached]

theorem Indexed.mappings_unloadEach_iff (h : Indexed s)
    (hrefused : (s.unloadEach threads object time).refusal ≠ none) :
    (s.unloadEach threads object time).state.mappings = s.mappings ↔
      time = Time.last ∨
        ∃ first rest, threads = first :: rest ∧
          ¬s.HasOpen first.name object.handle := by
  rcases h.unloadEach_of_refused hrefused with
    ⟨before, t, after, hthreads, hbefore, ht, heach⟩
  rw [heach]
  change (s.closeAll _ _ _).mappings = _ ↔ _
  cases before with
  | nil =>
      rw [List.map_nil, closeAll_nil]
      refine iff_of_true rfl (Or.inr ⟨t, after, hthreads, ?_⟩)
      intro hopen
      exact List.not_mem_nil (ht hopen).1
  | cons first rest =>
      have hopen := hbefore first List.mem_cons_self
      rw [List.map_cons, mappings_closeAll_iff hopen]
      refine (or_iff_left ?_).symm
      rintro ⟨other, others, heq, hclosed⟩
      cases hthreads.symm.trans heq
      exact hclosed hopen

end UnloadEach

/-! ## Records of unloads -/

open Application

/-- A record is accepted exactly if its file is known, the object is open in
all its threads, and none of them is named twice unless the time is the last
one. A refused record has ended the open mappings of the threads before the one
that it stops at. So it leaves the mappings as they were exactly if the file is
not known, or the time is the last one, or nothing of the object is open in the
first thread. -/
theorem refused_record_leaves_mappings_iff {a : Application} (h : Reached a)
    (r : UnloadedRecord) :
    let left := (a.applyUnloaded r).state
    (a.spaces.object? r.object = none →
      a.applyUnloaded r = .refused a (.unknownObject r.object.path)) ∧
    ∀ object, a.spaces.object? r.object = some object →
      ((a.applyUnloaded r).refusal = none ↔
        (∀ t ∈ r.threads, a.spaces.HasOpen t.name object.handle) ∧
          ((r.threads.map ThreadRecord.name).Nodup ∨ r.time = Time.last)) ∧
      ((a.applyUnloaded r).refusal ≠ none →
        (∃ before t after, r.threads = before ++ t :: after ∧
          (∀ earlier ∈ before,
            a.spaces.HasOpen earlier.name object.handle) ∧
          (a.spaces.HasOpen t.name object.handle →
            t.name ∈ before.map ThreadRecord.name ∧ r.time ≠ Time.last) ∧
          a.applyUnloaded r =
            .refused
              (a.withSpaces (a.spaces.closeAll
                (before.map ThreadRecord.name) object.handle r.time))
              (.notLoaded object.file.path t.name)) ∧
        (left.spaces.mappings = a.spaces.mappings ↔
          r.time = Time.last ∨
            ∃ first rest, r.threads = first :: rest ∧
              ¬a.spaces.HasOpen first.name object.handle)) := by
  intro left
  have hindexed := (sound_of_reached h).indexed
  constructor
  · intro hunknown
    unfold applyUnloaded
    rw [hunknown]
  intro object hobject
  have happly : a.applyUnloaded r =
      (a.spaces.unloadEach r.threads object r.time).map a.withSpaces :=
    applyUnloaded_of_known hobject r.threads r.time
  rw [happly]
  refine ⟨hindexed.unloadEach_done_iff, ?_⟩
  intro hrefused
  constructor
  · rcases hindexed.unloadEach_of_refused hrefused with
      ⟨before, t, after, hthreads, hbefore, ht, heach⟩
    refine ⟨before, t, after, hthreads, hbefore, ht, ?_⟩
    rw [heach]
    rfl
  · have hleft : left.spaces =
        (a.spaces.unloadEach r.threads object r.time).state := by
      change (a.applyUnloaded r).state.spaces = _
      rw [happly]
      rfl
    rw [hleft]
    exact hindexed.mappings_unloadEach_iff hrefused

def loadedInTwo : Application :=
  (Application.applyLoaded ∅ (loadInto 1 0)).applyLoaded (loadInto 2 0)

/-- The second thread is named twice, and stops the record. -/
theorem refused_record_leaves_mappings_iff_named_twice :
    let threads := (loadInto 2 0).threads ++ (loadInto 2 0).threads
    let left := loadedInTwo.applyUnloaded ⟨threads, 20, ⟨"/bin/a", 1⟩⟩
    Reached loadedInTwo ∧
      left.refusal = some (.notLoaded "/bin/a" ⟨"a", 2, none, none⟩) ∧
      left.state.spaces.mappings ≠ loadedInTwo.spaces.mappings := by
  intro threads left
  have hreached : Reached loadedInTwo := .loaded (.loaded (.start ∅) _) _
  have hrefused : left.refusal =
      some (.notLoaded "/bin/a" ⟨"a", 2, none, none⟩) := by
    decide +kernel
  refine ⟨hreached, hrefused, ?_⟩
  have hfound : loadedInTwo.spaces.object? ⟨"/bin/a", 1⟩ =
      some ⟨⟨0, 0⟩, ⟨"/bin/a", 0⟩⟩ := by
    decide +kernel
  rcases refused_record_leaves_mappings_iff hreached
    ⟨threads, 20, ⟨"/bin/a", 1⟩⟩ with ⟨_, hknown⟩
  have hstops := (hknown _ hfound).2 (hrefused ▸ Option.some_ne_none _)
  intro hsame
  rcases hstops.2.mp hsame with hlast | ⟨first, rest, heq, hclosed⟩
  · exact absurd hlast (by decide)
  · cases heq
    exact hclosed (by decide +kernel)

/-- The first thread has its mapping ended before the second one stops the
record. -/
theorem refused_record_ends_mappings :
    ¬∀ (a : Application) (r : UnloadedRecord), Reached a →
      (a.applyUnloaded r).refusal ≠ none →
        (a.applyUnloaded r).state.spaces.mappings = a.spaces.mappings := by
  intro h
  have hsame := h (Application.applyLoaded ∅ (loadInto 1 0))
    ⟨(loadInto 1 0).threads ++ (loadInto 2 0).threads, 20, ⟨"/bin/a", 0⟩⟩
    (.loaded (.start ∅) _) (by decide +kernel)
  exact absurd hsame (by decide +kernel)

end AddressSpaces
end CudaProfile
