import CudaProfile.Message
import CudaProfile.Proofs.Component.Tracking
import CudaProfile.Proofs.Lists
/-!
# What messages tell about threads

A thread is attached to by the first message that announces it. From then on it
is in the state that was last reported of it, and running until one is. Reports
from before do not count, and announcing it again changes nothing. A tracker
that gets all messages one after the other knows just this, and finds the
threads terminated once.
-/

namespace CudaProfile
namespace Lifecycle

/-! ## Messages about threads -/

section Messages

variable (announced : Message → List ThreadRecord)

def announces (thread : ThreadName) (message : Message) : Bool :=
  (announced message).any fun r => r.name = thread

def reported? (thread : ThreadName) : Message → Option ThreadState
  | .threadsStateChanged r =>
      if r.threads.any fun t => t.name = thread then some r.state else none
  | _ => none

/-- The last state reported of a thread since it was announced, if it was. -/
def state? (messages : List Message) (thread : ThreadName) :
    Option ThreadState :=
  match messages.dropWhile fun m => !announces announced thread m with
  | [] => none
  | _ :: since =>
      some ((since.filterMap (reported? thread)).getLast?.getD .running)

def Attached (messages : List Message) (thread : ThreadName) : Prop :=
  ∃ message ∈ messages, announces announced thread message = true

instance (messages : List Message) (thread : ThreadName) :
    Decidable (Attached announced messages thread) :=
  inferInstanceAs (Decidable (∃ message ∈ messages,
    announces announced thread message = true))

def AllTerminated (messages : List Message) : Prop :=
  (∃ thread, Attached announced messages thread) ∧
    ∀ thread, Attached announced messages thread →
      state? announced messages thread = some .terminated

/-- After messages, a state change leaves some threads, all terminated. -/
def Ends (before : List Message) (message : Message) : Prop :=
  (∃ r, message = .threadsStateChanged r) ∧
    AllTerminated announced (before ++ [message])

/-- There was such a state change. -/
def Ended (messages : List Message) : Prop :=
  ∃ before message, before ++ [message] <+: messages ∧
    Ends announced before message

variable {announced} {before : List Message} {message : Message}
  {thread : ThreadName}

theorem attached_iff {messages : List Message} :
    Attached announced messages thread ↔
      ∃ state, state? announced messages thread = some state := by
  unfold state?
  cases hsince : messages.dropWhile fun m => !announces announced thread m with
  | nil =>
      have hnone := List.dropWhile_eq_nil_iff.mp hsince
      constructor
      · intro hattached
        rcases hattached with ⟨m, hmem, hannounces⟩
        have hnot := hnone m hmem
        rw [hannounces] at hnot
        cases hnot
      · intro hstate
        rcases hstate with ⟨state, hstate⟩
        cases hstate
  | cons announcement since =>
      refine iff_of_true ?_ ⟨_, rfl⟩
      have hmem : announcement ∈ announcement :: since := List.mem_cons_self
      rw [← hsince] at hmem
      refine ⟨announcement, (List.dropWhile_sublist _).mem hmem, ?_⟩
      have hhead := List.head?_dropWhile_not
        (fun m => !announces announced thread m) messages
      rw [hsince] at hhead
      simpa using hhead

theorem attached_append :
    Attached announced (before ++ [message]) thread ↔
      Attached announced before thread ∨
        announces announced thread message = true := by
  unfold Attached
  simp only [List.mem_append, List.mem_singleton, or_and_right, exists_or,
    exists_eq_left]

theorem name_of_attached {messages : List Message}
    (h : Attached announced messages thread) :
    (ThreadRecord.ofName thread).name = thread := by
  rcases h with ⟨announcement, _, hannounces⟩
  rcases List.any_eq_true.mp hannounces with ⟨r, _, hname⟩
  rw [← of_decide_eq_true hname]
  exact r.name_ofName

theorem state?_append (before : List Message) (message : Message)
    (thread : ThreadName) :
    state? announced (before ++ [message]) thread =
      match state? announced before thread with
      | some state => some ((reported? thread message).getD state)
      | none =>
          if announces announced thread message then some .running
          else none := by
  unfold state?
  rw [List.dropWhile_append]
  cases before.dropWhile fun m => !announces announced thread m with
  | nil =>
      rw [if_pos List.isEmpty_nil]
      cases hannounces : announces announced thread message with
      | false =>
          rw [List.dropWhile_cons_of_pos (by rw [hannounces]; rfl)]
          rfl
      | true =>
          rw [List.dropWhile_cons_of_neg (by rw [hannounces]; decide)]
          rfl
  | cons announcement since =>
      rw [if_neg (by simp)]
      change some ((List.filterMap _ (since ++ [message])).getLast?.getD _) = _
      rw [List.filterMap_append, List.getLast?_append]
      cases hreported : reported? thread message with
      | none =>
          rw [List.filterMap_cons_none hreported]
          rfl
      | some state =>
          rw [List.filterMap_cons_some hreported]
          rfl

theorem ended_append :
    Ended announced (before ++ [message]) ↔
      Ended announced before ∨ Ends announced before message :=
  exists_prefix_append

theorem ended_append_of_ne (h : ∀ r, message ≠ .threadsStateChanged r) :
    Ended announced (before ++ [message]) ↔ Ended announced before := by
  rw [ended_append]
  apply or_iff_left
  intro hends
  rcases hends.1 with ⟨r, hr⟩
  exact h r hr

theorem not_ended_nil : ¬Ended announced [] :=
  not_exists_prefix_nil

end Messages

/-! ## What a tracker knows -/

section Tracking

variable (announced : Message → List ThreadRecord)

structure Follows (messages : List Message) (t : ThreadTracker) : Prop where
  threads : ∀ thread, t.state? thread = state? announced messages thread
  finished : t.finished = true ↔ Ended announced messages
  terminated : t.allTerminated = true → t.finished = true

variable {announced} {before : List Message} {t : ThreadTracker}

theorem follows_nil : Follows announced [] ∅ := by
  constructor
  · intro thread
    rfl
  · constructor
    · intro hfinished
      cases hfinished
    · intro hended
      exact absurd hended not_ended_nil
  · intro hall
    cases hall

theorem allTerminated_iff {messages : List Message}
    (h : ∀ thread, t.state? thread = state? announced messages thread) :
    t.allTerminated = true ↔ AllTerminated announced messages := by
  have hget : ∀ thread, t.threads.get? thread =
      state? announced messages thread := h
  rw [ThreadTracker.allTerminated_iff]
  simp only [hget]
  unfold AllTerminated
  simp only [attached_iff]
  apply and_congr_right
  intro _
  apply forall_congr'
  intro thread
  constructor
  · intro hall hattached
    rcases hattached with ⟨state, hstate⟩
    rw [hstate, hall state hstate]
  · intro hall state hstate
    have hterminated := hall ⟨state, hstate⟩
    rw [hstate] at hterminated
    exact Option.some.inj hterminated

theorem Follows.mem_keys_iff (h : Follows announced before t)
    {thread : ThreadName} :
    thread ∈ t.threads.keys ↔ Attached announced before thread := by
  rw [OrderedMap.mem_keys_iff, attached_iff]
  simp only [← h.threads]
  rfl

theorem Follows.attach (h : Follows announced before t) {message : Message}
    (hother : ∀ r, message ≠ .threadsStateChanged r) :
    Follows announced (before ++ [message])
      (t.attachAll (announced message)) := by
  constructor
  · intro thread
    have hreported : reported? thread message = none := by
      cases message with
      | threadsStateChanged r =>
          exact absurd rfl (hother r)
      | _ =>
          rfl
    rw [state?_append, hreported, ← h.threads]
    change (t.attachAll (announced message)).threads.get? thread = _
    rw [ThreadTracker.get?_attachAll, announces]
    change _ = match t.threads.get? thread with
      | some state => some state
      | none => _
    cases t.threads.get? thread with
    | none =>
        rfl
    | some state =>
        exact ite_self _
  · rw [ThreadTracker.finished_attachAll, ended_append_of_ne hother]
    exact h.finished
  · intro hall
    rw [ThreadTracker.finished_attachAll]
    exact h.terminated (ThreadTracker.allTerminated_of_attachAll hall)

theorem not_announces {message : Message} (h : announced message = [])
    {thread : ThreadName} : announces announced thread message = false := by
  unfold announces
  rw [h]
  rfl

theorem state?_changes
    (h : ∀ thread, t.state? thread = state? announced before thread)
    (r : StateChangeRecord)
    (hchanged : announced (.threadsStateChanged r) = []) (thread : ThreadName) :
    (r.threads.foldl (ThreadTracker.change r.state) t).state? thread =
      state? announced (before ++ [.threadsStateChanged r]) thread := by
  rw [state?_append, not_announces hchanged, ← h]
  change (r.threads.foldl (ThreadTracker.change r.state) t).threads.get? thread =
    match t.threads.get? thread with
    | some state =>
        some ((if r.threads.any fun t => t.name = thread then some r.state
          else none).getD state)
    | none => none
  rw [ThreadTracker.get?_changes]
  cases t.threads.get? thread with
  | none =>
      exact ite_self _
  | some state =>
      simp only
      split
      · rfl
      · rfl

/-- The states of threads change. That is found to be the end if it is, and
there was none before. -/
theorem Follows.change (h : Follows announced before t) (r : StateChangeRecord)
    (hchanged : announced (.threadsStateChanged r) = []) :
    Follows announced (before ++ [.threadsStateChanged r]) (t.update r).1 ∧
      ((t.update r).2 = true ↔
        Ends announced before (.threadsStateChanged r) ∧
          ¬Ended announced before) := by
  have hthreads := state?_changes h.threads r hchanged
  have hends : (r.threads.foldl (ThreadTracker.change r.state)
      t).allTerminated = true ↔
        Ends announced before (.threadsStateChanged r) := by
    rw [allTerminated_iff hthreads]
    exact (and_iff_right ⟨r, rfl⟩).symm
  rcases t.update_eq r h.terminated with ⟨hlast, hfinished⟩
  constructor
  · constructor
    · intro thread
      rw [← hthreads]
      unfold ThreadTracker.state?
      rw [ThreadTracker.threads_update]
    · rw [hfinished, ended_append, Bool.or_eq_true, h.finished, hends]
    · intro hall
      rw [ThreadTracker.allTerminated_congr (t.threads_update r)] at hall
      rw [hfinished, hall, Bool.or_true]
  · rw [hlast, Bool.and_eq_true, Bool.not_eq_true', ← Bool.not_eq_true,
      h.finished, hends, and_comm]

theorem Follows.contains_eq (h : Follows announced before t)
    (thread : ThreadName) :
    t.threads.contains thread = (state? announced before thread).isSome :=
  congrArg Option.isSome (h.threads thread)

theorem Follows.update_filter (h : Follows announced before t)
    (r : StateChangeRecord) :
    t.update { r with
        threads := r.threads.filter fun thread =>
          (state? announced before thread.name).isSome } = t.update r := by
  have hchanges := ThreadTracker.changes_filter r.state t r.threads
  simp only [h.contains_eq] at hchanges
  unfold ThreadTracker.update
  simp only [hchanges]

theorem Follows.update_nil (h : Follows announced before t)
    (state : ThreadState) : t.update ⟨[], state⟩ = (t, false) := by
  have hnot : (!t.finished && t.allTerminated) = false := by
    cases hall : t.allTerminated with
    | false =>
        exact Bool.and_false _
    | true =>
        rw [h.terminated hall]
        rfl
  unfold ThreadTracker.update
  simp only [List.foldl_nil, Bool.and_assoc, hnot, Bool.and_false,
    Bool.false_eq_true, if_false]

end Tracking

end Lifecycle
end CudaProfile
