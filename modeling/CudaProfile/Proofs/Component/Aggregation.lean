import CudaProfile.Proofs.AddressBuffer
import CudaProfile.Proofs.Component.Collecting
import CudaProfile.Proofs.Component.TerminalSequence
/-!
# Runs of the aggregation pipeline

The pipeline is silent while an application runs. When the last thread has
terminated it sends everything at once: the data, what was loaded where, and
the program counters in the data, as a set and with their counts. The set comes
from the blobs that arrived and the counts from the blobs that are sent, and
the two agree because reshuffling conserves records.
-/

namespace CudaProfile
namespace Aggregation

open Cuda PerformanceData Pipeline Lifecycle Collecting
open StateManager (announced)

def isInput : Message → Bool
  | .data _ | .attachedToThreads _ | .initialLinkedObjects _
  | .loadedLinkedObject _ | .unloadedLinkedObject _ | .symbolTable _
  | .threadsStateChanged _ => true
  | _ => false

/-! ## The stages, message by message -/

section Stages

variable (s : StateManager) (d : DataAggregator) (a : AddressAggregator)

def stages : List Stage :=
  [.stateManager s, .dataAggregator d, .addressAggregator a]

theorem send_data (blob : Blob) :
    (send (stages s d a) (.data blob)).messages = [] ∧
      (send (stages s d a) (.data blob)).state =
        stages s (d.receive blob).state a ∧
      (send (stages s d a) (.data blob)).refusal =
        (d.receive blob).refusal := by
  have hpass : deliver (Stage.stateManager s) [.data blob] =
      .send (.stateManager s) [.data blob] :=
    deliver_pass _ (by simp [Component.accepts, Stage.accepts])
  have hhandle : deliver (Stage.dataAggregator d) [.data blob] =
      (d.receive blob).map .dataAggregator :=
    deliver_singleton (Stage.dataAggregator d) rfl
  have hsilent := run_silent (Stage.dataAggregator d) [.addressAggregator a]
    [.data blob] (by rw [hhandle]; exact d.receive_messages blob)
  rw [hhandle] at hsilent
  unfold send stages
  rw [run_cons _ _ _ (by rw [hpass]; rfl), hpass]
  refine ⟨hsilent.1, ?_, hsilent.2.2⟩
  exact congrArg (List.cons _) hsilent.2.1

theorem send_silent {message : Message}
    (haccepts : Component.accepts s message = true)
    (hsilent : (Component.handle s message).messages = []) :
    (send (stages s d a) message).messages = [] ∧
      (send (stages s d a) message).state =
        stages (Component.handle s message).state d a := by
  have hhandle : deliver (Stage.stateManager s) [message] =
      (Component.handle s message).map .stateManager :=
    deliver_singleton (Stage.stateManager s) haccepts
  have hrun := run_silent (Stage.stateManager s)
    [.dataAggregator d, .addressAggregator a] [message]
    (by rw [hhandle]; exact hsilent)
  rw [hhandle] at hrun
  exact ⟨hrun.1, hrun.2.1⟩

theorem heardFrom_data (blob : Blob) :
    heardFrom (stages s d a) (.data blob) =
      if blob.header.id = collectorId then d.data.report? blob else none := by
  rw [heardFrom_blob, (send_data s d a blob).2.2]
  by_cases hid : blob.header.id = collectorId
  · rw [if_pos hid, if_pos hid]
    exact (d.report?_eq hid).symm
  · rw [if_neg hid, if_neg hid]

theorem state_deliver_dataAggregator {messages : List Message}
    (h : ∀ blob, .data blob ∉ messages) :
    (deliver (Stage.dataAggregator d) messages).state = .dataAggregator d := by
  apply state_deliver (motive := fun stage : Stage =>
    stage = .dataAggregator d)
  · intro stage hstage message hmem
    subst hstage
    have hother : ∀ blob, message ≠ .data blob := by
      intro blob heq
      subst heq
      exact h blob hmem
    exact congrArg Stage.dataAggregator (d.state_handle_of_ne hother)
  · rfl

theorem state_deliver_addressAggregator (messages : List Message) :
    ∃ a', (deliver (Stage.addressAggregator a) messages).state =
      .addressAggregator a' := by
  apply state_deliver (motive := fun stage : Stage =>
    ∃ a', stage = .addressAggregator a')
  · intro stage hstage message _
    rcases hstage with ⟨a', rfl⟩
    exact ⟨_, rfl⟩
  · exact ⟨a, rfl⟩

/-- What the state manager sends leaves the data aggregator as it is, whether
or not any of it is refused. -/
theorem state_send {message : Message}
    (haccepts : Component.accepts s message = true)
    (hdata : ∀ blob, .data blob ∉ (Component.handle s message).messages) :
    ∃ a', (send (stages s d a) message).state =
      stages (Component.handle s message).state d a' := by
  have hhandle : deliver (Stage.stateManager s) [message] =
      (Component.handle s message).map .stateManager :=
    deliver_singleton (Stage.stateManager s) haccepts
  have hmessages : ((Component.handle s message).map
      Stage.stateManager).messages = (Component.handle s message).messages :=
    rfl
  unfold send
  rw [stages, state_run, hhandle]
  split
  · rw [state_run, hmessages, state_deliver_dataAggregator d hdata]
    split
    · rcases state_deliver_addressAggregator a
        (deliver (Stage.dataAggregator d)
          (Component.handle s message).messages).messages with ⟨a', ha'⟩
      refine ⟨a', ?_⟩
      rw [state_run, ha']
      split
      · rfl
      · rfl
    · exact ⟨a, rfl⟩
  · exact ⟨a, rfl⟩

end Stages

/-! ## The invariant -/

structure Knows (debug : Bool) (before : List Message) (s : StateManager)
    (d : DataAggregator) (a : AddressAggregator) : Prop where
  tracker : Follows announced before s.tracker
  collects : Collects before d
  reports : heard (aggregation debug) before =
    accepted ∅ (cudaBlobs before)
  buffer : ¬Ended announced before → a = .empty

theorem knows_nil (debug : Bool) :
    Knows debug [] ∅ (.new debug) .empty :=
  ⟨follows_nil, collects_nil debug, rfl, fun _ => rfl⟩

section Knowing

variable {debug : Bool} {before : List Message} {message : Message}
  {s : StateManager} {d : DataAggregator} {a a' : AddressAggregator}

theorem Knows.data_step (h : Knows debug before s d a)
    (hafter : after (aggregation debug) before = stages s d a) (blob : Blob) :
    Knows debug (before ++ [.data blob]) s (d.receive blob).state a := by
  have hother : ∀ r, Message.data blob ≠ .threadsStateChanged r :=
    fun r heq => by cases heq
  have hheard := heardFrom_data s d a blob
  rw [h.collects.data] at hheard
  constructor
  · exact h.tracker.attach hother
  · exact h.collects.data_step blob
  · exact heard_eq_accepted_data hafter h.reports hheard
  · rw [ended_append_of_ne hother]
    exact h.buffer

theorem Knows.other (h : Knows debug before s d a)
    (hafter : after (aggregation debug) before = stages s d a)
    (hdata : ∀ blob, message ≠ .data blob)
    (hbuffer : ¬Ended announced (before ++ [message]) → a' = .empty) :
    Knows debug (before ++ [message]) (Component.handle s message).state d
      a' := by
  constructor
  · exact StateManager.tracker_handle h.tracker message
  · exact h.collects.other hdata
  · exact heard_eq_accepted_other hafter h.reports hdata
  · exact hbuffer

theorem accepts_of_ne (hinput : isInput message = true)
    (hdata : ∀ blob, message ≠ .data blob) :
    Component.accepts s message = true := by
  cases message with
  | data blob =>
      exact absurd rfl (hdata blob)
  | attachedToThreads | initialLinkedObjects | loadedLinkedObject
  | unloadedLinkedObject | symbolTable | threadsStateChanged =>
      rfl
  | _ =>
      cases hinput

theorem data_not_mem_terminalMessages (blob : Blob) :
    .data blob ∉ s.terminalMessages := by
  unfold StateManager.terminalMessages
  simp

theorem Knows.other_step (h : Knows debug before s d a)
    (hafter : after (aggregation debug) before = stages s d a)
    (hinput : isInput message = true)
    (hdata : ∀ blob, message ≠ .data blob) :
    ∃ s' a', (send (stages s d a) message).state = stages s' d a' ∧
      Knows debug (before ++ [message]) s' d a' := by
  have haccepts := accepts_of_ne (s := s) hinput hdata
  by_cases hlast : Ends announced before message ∧ ¬Ended announced before
  · have hnone : ∀ blob, .data blob ∉
        (Component.handle s message).messages := by
      rcases hlast.1.1 with ⟨r, rfl⟩
      rw [StateManager.handle_changed,
        if_pos ((h.tracker.change r rfl).2.mpr hlast)]
      exact data_not_mem_terminalMessages
    rcases state_send s d a haccepts hnone with ⟨a', hstate⟩
    refine ⟨_, a', hstate, h.other hafter hdata ?_⟩
    intro hnot
    exact absurd (ended_append.mpr (.inr hlast.1)) hnot
  · have hsilent := StateManager.messages_eq_nil h.tracker hlast
    refine ⟨_, a, (send_silent s d a haccepts hsilent).2,
      h.other hafter hdata ?_⟩
    intro hnot
    exact h.buffer fun hended => hnot (ended_append.mpr (.inl hended))

theorem Knows.step (h : Knows debug before s d a)
    (hafter : after (aggregation debug) before = stages s d a)
    (hinput : isInput message = true) :
    ∃ s' d' a', (send (stages s d a) message).state = stages s' d' a' ∧
      Knows debug (before ++ [message]) s' d' a' := by
  by_cases hdata : ∃ blob, message = .data blob
  · rcases hdata with ⟨blob, rfl⟩
    exact ⟨s, _, a, (send_data s d a blob).2.1, h.data_step hafter blob⟩
  · rcases h.other_step hafter hinput (fun blob heq => hdata ⟨blob, heq⟩)
      with ⟨s', a', hstate, hnext⟩
    exact ⟨s', d, a', hstate, hnext⟩

end Knowing

theorem knows_after (debug : Bool) (messages : List Message)
    (hinputs : ∀ message ∈ messages, isInput message = true) :
    ∃ s d a, after (aggregation debug) messages = stages s d a ∧
      Knows debug messages s d a := by
  induction messages using List.reverseRecOn with
  | nil =>
      exact ⟨_, _, _, rfl, knows_nil debug⟩
  | append_singleton before message ih =>
      rcases List.forall_mem_append.mp hinputs with ⟨hbefore, hlast⟩
      rcases ih hbefore with ⟨s, d, a, hafter, hknows⟩
      rw [after_append, hafter]
      exact hknows.step hafter (hlast message (List.mem_singleton_self _))

/-! ## The end of a run -/

theorem deliver_blobs {blobs : List Blob} {ds : List Data}
    (hid : ∀ blob ∈ blobs, blob.header.id = collectorId)
    (hds : blobs.mapM Data.ofBlob = .ok ds) (a : AddressAggregator) :
    deliver (Stage.addressAggregator a) (blobs.map Message.data) =
      .send (.addressAggregator
        ⟨a.buffer.observeAll (ds.flatMap Data.pcs)⟩)
        (blobs.map Message.data) := by
  induction blobs generalizing ds a with
  | nil =>
      cases hds
      rfl
  | cons blob rest ih =>
      rcases List.forall_mem_cons.mp hid with ⟨hfirst, hrest⟩
      rw [List.mapM_cons] at hds
      rcases bind_eq_ok_iff.mp hds with ⟨d, hd, hmore⟩
      rcases bind_eq_ok_iff.mp hmore with ⟨others, hothers, hvalues⟩
      cases hvalues
      have hhandle : Component.handle (Stage.addressAggregator a)
          (.data blob) = .send (.addressAggregator
            ⟨a.buffer.observeAll d.pcs⟩) [.data blob] := by
        change (AddressAggregator.pass a blob).map Stage.addressAggregator = _
        unfold AddressAggregator.pass
        rw [if_neg (by simp [hfirst]), hd]
        rfl
      have haccepts : Component.accepts (Stage.addressAggregator a)
          (.data blob) = true := rfl
      rw [List.map_cons, deliver_cons_accepted haccepts (by rw [hhandle]; rfl),
        hhandle]
      change (deliver (Stage.addressAggregator _) _).after _ _ = _
      rw [ih hrest hothers, List.flatMap_cons]
      unfold AddressBuffer.observeAll
      rw [List.foldl_append]
      rfl

def linkedObjects (s : StateManager) : List Message :=
  s.application.spaces.groupRecords.map Message.linkedObjectGroup

theorem deliver_terminal_data {s : StateManager} {d : DataAggregator}
    {blobs : List Blob}
    (hblobs : DataAggregator.blobsOf d.data d.data.threads.keys =
      (blobs, none)) :
    ∃ texts, deliver (Stage.dataAggregator d) s.terminalMessages =
      ⟨.dataAggregator d, blobs.map Message.data ++
        ([.attachedToThreads s.application.spaces.attachedRecord,
          .addressSet d.addresses] ++
            (linkedObjects s ++ [.threadsFinished true])), texts, none⟩ := by
  have hdata : Component.handle (Stage.dataAggregator d) (.triggerData true) =
      ⟨.dataAggregator d, blobs.map Message.data,
        blobs.flatMap (d.shown "emitted"), none⟩ := by
    change (DataAggregator.sendData d).map Stage.dataAggregator = _
    unfold DataAggregator.sendData
    rw [hblobs]
    rfl
  have hset : Component.handle (Stage.dataAggregator d)
      (.triggerAddressBuffer true) =
        .send (.dataAggregator d) [.addressSet d.addresses] := rfl
  have hrest : deliver (Stage.dataAggregator d)
      (linkedObjects s ++ [.threadsFinished true]) =
        .send (.dataAggregator d)
          (linkedObjects s ++ [.threadsFinished true]) := by
    apply deliver_pass
    intro message hmem
    rcases List.mem_append.mp hmem with hmem | hmem
    · rcases List.mem_map.mp hmem with ⟨group, _, rfl⟩
      rfl
    · rw [List.mem_singleton.mp hmem]
      rfl
  have hmessages : s.terminalMessages = .triggerData true ::
      .attachedToThreads s.application.spaces.attachedRecord ::
        .triggerAddressBuffer true ::
          (linkedObjects s ++ [.threadsFinished true]) := rfl
  refine ⟨blobs.flatMap (d.shown "emitted"), ?_⟩
  rw [hmessages, deliver_cons_accepted rfl (by rw [hdata]), hdata,
    deliver_cons_passed rfl, deliver_cons_accepted rfl (by rw [hset]; rfl),
    hset]
  change (((deliver (Stage.dataAggregator d) _).after _ _).after _ _).after
    _ _ = _
  rw [hrest]
  simp [Reply.after, Reply.send]

theorem deliver_terminal_addresses {blobs : List Blob} {ds : List Data}
    {between : List Message}
    (hid : ∀ blob ∈ blobs, blob.header.id = collectorId)
    (hds : blobs.mapM Data.ofBlob = .ok ds)
    (hbetween : ∀ a : AddressAggregator, ∀ message ∈ between,
      Component.accepts (Stage.addressAggregator a) message = false)
    (a : AddressAggregator) :
    ∃ a', deliver (Stage.addressAggregator a)
        (blobs.map Message.data ++ (between ++ [.threadsFinished true])) =
      .send (.addressAggregator a')
        (blobs.map Message.data ++ (between ++
          [.addressBuffer (a.buffer.observeAll (ds.flatMap Data.pcs)),
            .threadsFinished true])) := by
  let counted : AddressAggregator :=
    ⟨a.buffer.observeAll (ds.flatMap Data.pcs)⟩
  have hpass : deliver (Stage.addressAggregator counted) between =
      .send (.addressAggregator counted) between :=
    deliver_pass _ (hbetween counted)
  have hend : deliver (Stage.addressAggregator counted)
      [.threadsFinished true] = .send (.addressAggregator counted)
        [.addressBuffer counted.buffer, .threadsFinished true] :=
    deliver_singleton _ rfl
  have hrest : deliver (Stage.addressAggregator counted)
      (between ++ [.threadsFinished true]) =
        .send (.addressAggregator counted) (between ++
          [.addressBuffer counted.buffer, .threadsFinished true]) := by
    rw [deliver_append _ _ _ (by rw [hpass]; rfl), hpass]
    change (deliver (Stage.addressAggregator counted) _).after _ _ = _
    rw [hend]
    rfl
  refine ⟨counted, ?_⟩
  rw [deliver_append _ _ _ (by rw [deliver_blobs hid hds]; rfl),
    deliver_blobs hid hds]
  change (deliver (Stage.addressAggregator counted) _).after _ _ = _
  rw [hrest]
  rfl

/-- What comes out at the end: the data, what was attached to, the set of the
program counters, the linked objects of every thread, the counts of the program
counters, and the end. -/
structure Output where
  blobs : List Blob
  attached : AttachedRecord
  set : AddressSet
  groups : List ObjectGroupRecord
  buffer : AddressBuffer

def Output.messages (o : Output) : List Message :=
  o.blobs.map Message.data ++
    ([.attachedToThreads o.attached, .addressSet o.set] ++
      (o.groups.map Message.linkedObjectGroup ++
        [.addressBuffer o.buffer, .threadsFinished true]))

/-- Counts and set are of given program counters. -/
structure Output.Counts (o : Output) (pcs : List Address) : Prop where
  count : ∀ x, (o.buffer.count x).toNat = pcs.count x
  keys : ∀ x, x ∈ o.buffer.counts.keys ↔ x ∈ pcs
  contains : ∀ x, o.set.contains x = true ↔ x ∈ o.buffer.counts.keys

section Terminal

variable {debug : Bool} {before : List Message} {s : StateManager}
  {d : DataAggregator} {a : AddressAggregator}

theorem send_terminal {r : StateChangeRecord}
    (hlast : (s.tracker.update r).2 = true) {blobs : List Blob}
    {ds : List Data}
    (hblobs : DataAggregator.blobsOf d.data d.data.threads.keys = (blobs, none))
    (hid : ∀ blob ∈ blobs, blob.header.id = collectorId)
    (hds : blobs.mapM Data.ofBlob = .ok ds) :
    (send (stages s d a) (.threadsStateChanged r)).refusal = none ∧
      (send (stages s d a) (.threadsStateChanged r)).messages =
        Output.messages
          ⟨blobs, s.application.spaces.attachedRecord, d.addresses,
            s.application.spaces.groupRecords,
            a.buffer.observeAll (ds.flatMap Data.pcs)⟩ := by
  have hchanged : deliver (Stage.stateManager s) [.threadsStateChanged r] =
      .send (.stateManager { s with tracker := (s.tracker.update r).1 })
        s.terminalMessages := by
    rw [deliver_singleton _ rfl]
    change (Component.handle s (.threadsStateChanged r)).map _ = _
    rw [StateManager.handle_changed, if_pos hlast]
    rfl
  have hbetween : ∀ a : AddressAggregator, ∀ message ∈
      [.attachedToThreads s.application.spaces.attachedRecord,
        .addressSet d.addresses] ++ linkedObjects s,
      Component.accepts (Stage.addressAggregator a) message = false := by
    intro a message hmem
    rcases List.mem_append.mp hmem with hmem | hmem
    · rcases List.mem_pair.mp hmem with rfl | rfl
      · rfl
      · rfl
    · rcases List.mem_map.mp hmem with ⟨group, _, rfl⟩
      rfl
  rcases deliver_terminal_data (s := s) hblobs with ⟨texts, hdata⟩
  rcases deliver_terminal_addresses hid hds hbetween a with ⟨a', haddresses⟩
  rw [List.append_assoc, List.append_assoc] at haddresses
  unfold send stages
  rw [run_cons _ _ _ (by rw [hchanged]; rfl), hchanged]
  change (run [Stage.dataAggregator d, Stage.addressAggregator a]
    s.terminalMessages).refusal = none ∧
      (run [Stage.dataAggregator d, Stage.addressAggregator a]
        s.terminalMessages).messages = _
  rw [run_cons _ _ _ (by rw [hdata]), hdata]
  change (run [Stage.addressAggregator a] _).refusal = none ∧
    (run [Stage.addressAggregator a] _).messages = _
  rw [run_cons _ _ _ (by rw [haddresses]; rfl), haddresses]
  exact ⟨rfl, rfl⟩

theorem Knows.shown (h : Knows debug before s d a)
    (hmemory : bytesOf (heard (aggregation debug) before) < 2 ^ 64) :
    ∃ blobs ds,
      DataAggregator.blobsOf d.data d.data.threads.keys = (blobs, none) ∧
      (∀ blob ∈ blobs, blob.header.id = collectorId) ∧
      blobs.mapM Data.ofBlob = .ok ds ∧
      (ds.flatMap Data.pcs).Perm ((heard (aggregation debug) before).flatMap
        fun report => report.data.pcs) := by
  have hmem : (receive ∅ (cudaBlobs before)).InMemory := by
    unfold InMemory
    rw [← bytesOf_accepted, ← h.reports]
    exact hmemory
  have hholds : ∀ t ∈ (receive ∅ (cudaBlobs before)).threads.keys, _ :=
    fun t ht => reshuffled_holds hmem ht
  choose! blobs shown hblobs hshown hfixed _ using hholds
  rw [h.collects.data, h.reports]
  refine ⟨_, _, DataAggregator.blobsOf_eq hblobs, ?_, mapM_flatMap_eq_ok hshown,
    perm_pcs_shown hfixed⟩
  intro blob hblob
  rcases List.mem_flatMap.mp hblob with ⟨t, ht, hmem⟩
  exact id_of_mem_reshuffled (fun _ => id_of_mem_cudaBlobs) ht (hblobs t ht)
    blob hmem

theorem counts_observeAll {o : Output} {pcs shown : List Address}
    (hshown : shown.Perm pcs) (hcounts : ∀ x, pcs.count x < 2 ^ 64)
    (hbuffer : o.buffer = AddressBuffer.empty.observeAll shown)
    (hset : ∀ x, o.set.contains x = decide (x ∈ pcs)) : o.Counts pcs := by
  have hkeys : ∀ x, x ∈ o.buffer.counts.keys ↔ x ∈ pcs := by
    intro x
    rw [hbuffer, AddressBuffer.mem_keys_observeAll, hshown.mem_iff]
    apply or_iff_left
    intro hmem
    cases hmem
  constructor
  · intro x
    rw [hbuffer, AddressBuffer.count_observeAll, hshown.count_eq]
    change (0 + UInt64.ofNat (pcs.count x)).toNat = _
    rw [UInt64.zero_add, UInt64.toNat_ofNat_of_lt' (hcounts x)]
  · exact hkeys
  · intro x
    rw [hset, hkeys, decide_eq_true_iff]

theorem Knows.send_last (h : Knows debug before s d a)
    (hmemory : bytesOf (heard (aggregation debug) before) < 2 ^ 64)
    (hcounts : ∀ x, ((heard (aggregation debug) before).flatMap
      fun report => report.data.pcs).count x < 2 ^ 64)
    {r : StateChangeRecord} (hlast : (s.tracker.update r).2 = true) :
    (send (stages s d a) (.threadsStateChanged r)).refusal = none ∧
      ∃ o : Output,
        (send (stages s d a) (.threadsStateChanged r)).messages = o.messages ∧
        o.Counts ((heard (aggregation debug) before).flatMap
          fun report => report.data.pcs) := by
  have hfirst := ((h.tracker.change r rfl).2.mp hlast).2
  rcases h.shown hmemory with ⟨blobs, ds, hblobs, hid, hds, hpcs⟩
  rcases send_terminal (a := a) hlast hblobs hid hds with
    ⟨hrefusal, hmessages⟩
  rw [h.buffer hfirst] at hrefusal hmessages ⊢
  have hset := h.collects.addresses
  rw [← h.reports] at hset
  exact ⟨hrefusal, _, hmessages, counts_observeAll hpcs hcounts rfl hset⟩

theorem Knows.send_quiet (h : Knows debug before s d a) {message : Message}
    (hinput : isInput message = true)
    (hnot : ¬(Ends announced before message ∧ ¬Ended announced before)) :
    (send (stages s d a) message).messages = [] := by
  by_cases hdata : ∃ blob, message = .data blob
  · rcases hdata with ⟨blob, rfl⟩
    exact (send_data s d a blob).1
  · have haccepts := accepts_of_ne (s := s) hinput
      fun blob heq => hdata ⟨blob, heq⟩
    have hsilent := StateManager.messages_eq_nil h.tracker hnot
    exact (send_silent s d a haccepts hsilent).1

end Terminal

/-- Whatever messages come in: nothing is sent until a state change leaves some
threads and all of them terminated. The first one to do so is accepted, and
then everything is sent at once; nothing is sent ever again. The counts are of
the program counters of all accepted CUDA data, and the set is of the addresses
counted. -/
theorem sends_everything_once (debug : Bool) (before : List Message)
    (message : Message)
    (hinputs : ∀ sent ∈ before ++ [message], isInput sent = true) :
    (¬(Ends announced before message ∧ ¬Ended announced before) →
      (send (after (aggregation debug) before) message).messages = []) ∧
    (Ends announced before message ∧ ¬Ended announced before →
      bytesOf (heard (aggregation debug) before) < 2 ^ 64 →
      (∀ x, ((heard (aggregation debug) before).flatMap
        fun report => report.data.pcs).count x < 2 ^ 64) →
      (send (after (aggregation debug) before) message).refusal = none ∧
        ∃ o : Output,
          (send (after (aggregation debug) before) message).messages =
            o.messages ∧
          o.Counts ((heard (aggregation debug) before).flatMap
            fun report => report.data.pcs)) := by
  rcases List.forall_mem_append.mp hinputs with ⟨hbefore, hlast⟩
  have hinput : isInput message = true :=
    hlast message (List.mem_singleton_self _)
  rcases knows_after debug before hbefore with ⟨s, d, a, hafter, hknows⟩
  rw [hafter]
  constructor
  · intro hnot
    exact hknows.send_quiet hinput hnot
  · intro hends hmemory hcounts
    rcases hends.1.1 with ⟨r, rfl⟩
    exact hknows.send_last hmemory hcounts
      ((hknows.tracker.change r rfl).2.mpr hends)

def isLast (message : Message) : List Stage → Bool
  | .stateManager s :: _ =>
      match message with
      | .threadsStateChanged r => (s.tracker.update r).2
      | _ => false
  | _ => false

theorem sends_everything_once_two_threads :
    (∀ sent ∈ twoThreads ++ [lastChange], isInput sent = true) ∧
    (Ends announced twoThreads lastChange ∧ ¬Ended announced twoThreads) ∧
    ∃ o : Output, (send (after (aggregation false) twoThreads)
      lastChange).messages = o.messages ∧ o.Counts [7, 8, 7, 8] := by
  have hinputs : ∀ sent ∈ twoThreads ++ [lastChange], isInput sent = true := by
    decide +kernel
  rcases knows_after false twoThreads (List.forall_mem_append.mp hinputs).1
    with ⟨s, d, a, hafter, hknows⟩
  have hlast : isLast lastChange (after (aggregation false) twoThreads) =
      true := by
    decide +kernel
  rw [hafter] at hlast
  have hends := (hknows.tracker.change _ rfl).2.mp hlast
  have hpcs : ((heard (aggregation false) twoThreads).flatMap
      fun report => report.data.pcs) = [7, 8, 7, 8] := by
    decide +kernel
  have hrun := (sends_everything_once false twoThreads lastChange hinputs).2
    hends (by decide +kernel)
  rw [hpcs] at hrun
  refine ⟨hinputs, hends, (hrun ?_).2⟩
  intro x
  exact Nat.lt_of_le_of_lt List.count_le_length (by decide)

end Aggregation
end CudaProfile
