import CudaProfile.Component.StateManager
import CudaProfile.Proofs.AddressSpaces.Loading
import CudaProfile.Proofs.Component.Handling
import CudaProfile.Proofs.Component.Lifecycle
/-!
# What a state manager sends at the end

A state manager is silent until a state change leaves some threads and all of
them terminated. Then it sends its messages of the end, and never again. Which
threads they name depends on what was loaded, and when they are sent depends on
what was attached to.
-/

namespace CudaProfile
namespace StateManager

open Component Lifecycle

def announced : Message → List ThreadRecord
  | .attachedToThreads r => r.threads
  | .initialLinkedObjects groups => groups.map ObjectGroupRecord.thread
  | _ => []

/-! ## Single messages -/

section Steps

variable (s : StateManager)

theorem foldl_applyInitial (groups : List ObjectGroupRecord) :
    groups.foldl applyInitial s =
      ⟨groups.foldl Application.applyGroup s.application,
        s.tracker.attachAll (groups.map ObjectGroupRecord.thread)⟩ := by
  induction groups generalizing s with
  | nil =>
      rfl
  | cons group rest ih =>
      exact ih (applyInitial s group)

theorem handle_changed (r : StateChangeRecord) :
    handle s (.threadsStateChanged r) =
      if (s.tracker.update r).2 then
        .send { s with tracker := (s.tracker.update r).1 } s.terminalMessages
      else .quiet { s with tracker := (s.tracker.update r).1 } :=
  rfl

def hear (message : Message) : Application :=
  if accepts s message then s.application.hear message else s.application

theorem handle_other {message : Message}
    (hother : ∀ r, message ≠ .threadsStateChanged r) :
    (handle s message).messages = [] ∧
      (handle s message).state =
        ⟨s.hear message, s.tracker.attachAll (announced message)⟩ := by
  cases message with
  | threadsStateChanged r =>
      exact absurd rfl (hother r)
  | initialLinkedObjects groups =>
      exact ⟨rfl, foldl_applyInitial s groups⟩
  | _ =>
      exact ⟨rfl, rfl⟩

theorem application_handle (message : Message) :
    (handle s message).state.application = s.hear message := by
  by_cases hchange : ∃ r, message = .threadsStateChanged r
  · rcases hchange with ⟨r, rfl⟩
    rw [handle_changed]
    split
    · rfl
    · rfl
  · rw [(s.handle_other fun r heq => hchange ⟨r, heq⟩).2]

end Steps

/-! ## The messages at the end -/

/-- Asks for the data, names the threads with mappings, asks for the addresses,
lists the mappings of each of those threads, and ends. The threads are in their
order, and so are the mappings of each. -/
def TerminalSequence (mappings : List Mapping) (messages : List Message) :
    Prop :=
  ∃ threads : List ThreadName,
    (threads.Pairwise fun t u => compare t u = .lt) ∧
    (∀ t, t ∈ threads ↔ ∃ m ∈ mappings, m.thread = t) ∧
    (∀ t ∈ threads, (ThreadRecord.ofName t).name = t) ∧
    messages =
      [.triggerData true, .attachedToThreads ⟨threads.map ThreadRecord.ofName⟩,
          .triggerAddressBuffer true] ++
        threads.map (fun t => .linkedObjectGroup ⟨.ofName t,
          (mappings.filter fun m => m.thread = t).map Mapping.toRecord⟩) ++
        [.threadsFinished true]

structure Knows (messages : List Message) (s : StateManager) : Prop where
  tracker : Follows announced messages s.tracker
  application : s.application =
    .ofMessages (messages.filter (accepts s))

section Knowing

variable {before : List Message} {s : StateManager}

theorem knows_nil : Knows [] ∅ :=
  ⟨follows_nil, rfl⟩

theorem tracker_handle (h : Follows announced before s.tracker)
    (message : Message) :
    Follows announced (before ++ [message])
      (handle s message).state.tracker := by
  by_cases hchange : ∃ r, message = .threadsStateChanged r
  · rcases hchange with ⟨r, rfl⟩
    have htracker : (handle s (.threadsStateChanged r)).state.tracker =
        (s.tracker.update r).1 := by
      rw [handle_changed]
      split
      · rfl
      · rfl
    rw [htracker]
    exact (h.change r rfl).1
  · have hother : ∀ r, message ≠ .threadsStateChanged r :=
      fun r heq => hchange ⟨r, heq⟩
    rw [(s.handle_other hother).2]
    exact h.attach hother

theorem messages_eq_nil (h : Follows announced before s.tracker)
    {message : Message}
    (hnot : ¬(Ends announced before message ∧ ¬Ended announced before)) :
    (handle s message).messages = [] := by
  by_cases hchange : ∃ r, message = .threadsStateChanged r
  · rcases hchange with ⟨r, rfl⟩
    rw [← (h.change r rfl).2] at hnot
    rw [handle_changed, if_neg hnot]
    rfl
  · exact (s.handle_other fun r heq => hchange ⟨r, heq⟩).1

theorem Knows.handle (h : Knows before s) (message : Message) :
    Knows (before ++ [message]) (handle s message).state := by
  constructor
  · exact tracker_handle h.tracker message
  · have haccepts : accepts (Component.handle s message).state = accepts s :=
      rfl
    rw [application_handle, haccepts, List.filter_append]
    unfold hear
    split
    · next haccepted =>
      rw [List.filter_cons_of_pos haccepted, List.filter_nil,
        Application.ofMessages_append, h.application]
    · next hrefused =>
      rw [List.filter_cons_of_neg hrefused, List.filter_nil, List.append_nil]
      exact h.application

theorem knows_after (messages : List Message) :
    Knows messages (after ∅ messages) := by
  induction messages using List.reverseRecOn with
  | nil =>
      exact knows_nil
  | append_singleton before message ih =>
      rw [after_append]
      exact ih.handle message

theorem Knows.loads_eq (h : Knows before s) :
    s.application.loads =
      (before.filter (accepts s)).flatMap Load.ofMessage := by
  rw [h.application]
  exact Application.loads_ofMessages _

theorem Knows.terminalSequence (h : Knows before s) :
    TerminalSequence s.application.spaces.mappings s.terminalMessages := by
  have hsound : s.application.Sound := by
    rw [h.application]
    exact Application.sound_ofMessages _
  have hagreement := hsound.indexed.agreement
  refine ⟨s.application.spaces.threads, hagreement.ascending,
    hagreement.threads, ?_, ?_⟩
  · intro t ht
    rcases (hagreement.threads t).mp ht with ⟨m, hm, rfl⟩
    rw [h.application] at hm
    rcases Application.name_of_mem_ofMessages hm with ⟨r, hr⟩
    rw [← hr]
    exact r.name_ofName
  · unfold terminalMessages AddressSpaces.attachedRecord
      AddressSpaces.groupRecords AddressSpaces.groupRecord
    simp only [hagreement.thread, List.map_map]
    rfl

end Knowing

/-- How a state manager takes a message after others: in silence, unless it is
the first that leaves some threads and all of them terminated. -/
structure EndsOnce (before : List Message) (message : Message)
    (s : StateManager) : Prop where
  silent : ¬(Ends announced before message ∧ ¬Ended announced before) →
    (handle s message).messages = []
  terminal : Ends announced before message → ¬Ended announced before →
    (handle s message).refusal = none ∧
      TerminalSequence s.application.spaces.mappings
        (handle s message).messages
  /-- The mappings are the loads, in their order. -/
  loads : s.application.loads =
    (before.filter (accepts s)).flatMap Load.ofMessage
  states : ∀ thread, s.tracker.state? thread = state? announced before thread
  /-- Changes of threads that are not attached to have no effect. -/
  unattached : ∀ r : StateChangeRecord,
    handle s (.threadsStateChanged { r with
        threads := r.threads.filter fun t =>
          (state? announced before t.name).isSome }) =
      handle s (.threadsStateChanged r)
  unattached_only : ∀ r : StateChangeRecord,
    (∀ t ∈ r.threads, ¬Attached announced before t.name) →
      handle s (.threadsStateChanged r) = .quiet s
  /-- A thread that is attached to keeps its state until that changes. -/
  kept : (∀ r, message ≠ .threadsStateChanged r) → ∀ thread,
    Attached announced before thread →
      (handle s message).state.tracker.state? thread =
        s.tracker.state? thread

/-- A state manager sends its messages of the end once, whatever messages come
and whichever of them it refuses. -/
theorem sends_terminal_sequence_once (before : List Message)
    (message : Message) : EndsOnce before message (after ∅ before) := by
  have h := knows_after before
  have hunattached := h.tracker.update_filter
  constructor
  · exact messages_eq_nil h.tracker
  · intro hends hfirst
    rcases hends.1 with ⟨r, rfl⟩
    have hlast := (h.tracker.change r rfl).2.mpr ⟨hends, hfirst⟩
    rw [handle_changed, if_pos hlast]
    exact ⟨rfl, h.terminalSequence⟩
  · exact h.loads_eq
  · exact h.tracker.threads
  · intro r
    rw [handle_changed, handle_changed, hunattached]
  · intro r hnone
    have hfilter : (r.threads.filter fun t =>
        (state? announced before t.name).isSome) = [] := by
      rw [List.filter_eq_nil_iff]
      intro t ht hsome
      exact hnone t ht
        (attached_iff.mpr (Option.isSome_iff_exists.mp hsome))
    have hsame := hunattached r
    rw [hfilter, h.tracker.update_nil] at hsame
    rw [handle_changed, ← hsame]
    rfl
  · intro hother thread hattached
    rcases attached_iff.mp hattached with ⟨state, hstate⟩
    have hknown : (after (∅ : StateManager) before).tracker.threads.get?
        thread = some state := (h.tracker.threads thread).trans hstate
    rw [(handle_other _ hother).2]
    unfold ThreadTracker.state?
    rw [ThreadTracker.get?_attachAll, hknown]
    exact ite_self _

/-- The thread that was attached to has loaded nothing, and the other one is
known from its load alone. -/
example :
    let thread (pid : Int64) : ThreadRecord := ⟨0, "a", pid, false, 0, -1⟩
    let load : LoadedRecord := ⟨[thread 2], 10, ⟨0, 16⟩, ⟨"/bin/a", 0⟩, true⟩
    let before := after (∅ : StateManager)
      [.attachedToThreads ⟨[thread 1]⟩, .loadedLinkedObject load]
    (handle before (.threadsStateChanged ⟨[thread 1], .terminated⟩)).messages =
      [.triggerData true, .attachedToThreads ⟨[thread 2]⟩,
        .triggerAddressBuffer true,
        .linkedObjectGroup ⟨thread 2,
          [⟨⟨"/bin/a", 0⟩, ⟨0, 16⟩, ⟨10, 0⟩, true⟩]⟩,
        .threadsFinished true] := by
  decide +kernel

end StateManager
end CudaProfile
