import CudaProfile.Proofs.AddressSpaces.Loading
import CudaProfile.Proofs.Component.Lifecycle
import CudaProfile.Proofs.Component.Observing
import CudaProfile.Proofs.Cuda.Features
/-!
# Runs of the clustering pipeline

The pipeline is silent while an application runs. When the last thread that was
attached to has terminated, the leaf asks the feature generator for everything,
thread by thread, within one message. No request is refused, so nothing of the
end is lost, and no data either if it came from those threads.
-/

namespace CudaProfile
namespace Clustering

open Cuda PerformanceData Pipeline Lifecycle Observing

def isInput : Message → Bool
  | .data _ | .attachedToThreads _ | .initialLinkedObjects _
  | .linkedObjectGroup _ | .loadedLinkedObject _ | .unloadedLinkedObject _
  | .symbolTable _ | .threadsStateChanged _ => true
  | _ => false

def isLinked : Message → Bool
  | .initialLinkedObjects _ | .linkedObjectGroup _ | .loadedLinkedObject _
  | .unloadedLinkedObject _ | .symbolTable _ => true
  | _ => false

theorem input_cases {message : Message} (h : isInput message = true) :
    (∃ blob, message = .data blob) ∨
      (∃ r, message = .attachedToThreads r) ∨
        (∃ r, message = .threadsStateChanged r) ∨ isLinked message = true := by
  cases message with
  | data blob =>
      exact Or.inl ⟨blob, rfl⟩
  | attachedToThreads r =>
      exact Or.inr (Or.inl ⟨r, rfl⟩)
  | threadsStateChanged r =>
      exact Or.inr (Or.inr (Or.inl ⟨r, rfl⟩))
  | _ =>
      exact Or.inr (Or.inr (Or.inr h))

def announced : Message → List ThreadRecord
  | .attachedToThreads r => r.threads
  | _ => []

/-! ## The stages, message by message -/

section Stages

variable (s : ClusteringLeaf) (g : FeatureGenerator)

def stages : List Stage :=
  [.clusteringLeaf s, .featureGenerator g]

theorem send_attached (r : AttachedRecord) :
    send (stages s g) (.attachedToThreads r) =
      .quiet (stages ⟨s.tracker.attachAll r.threads⟩ g) :=
  rfl

theorem send_passed (message : Message)
    (hpass : Component.accepts s message = false)
    (haccepts : Component.accepts g message = true)
    (hsilent : (Component.handle g message).messages = []) :
    (send (stages s g) message).messages = [] ∧
      (send (stages s g) message).state =
        stages s (Component.handle g message).state ∧
      (send (stages s g) message).refusal =
        (Component.handle g message).refusal := by
  have hleaf : deliver (Stage.clusteringLeaf s) [message] =
      .send (.clusteringLeaf s) [message] := by
    apply deliver_pass
    intro other hmem
    rw [List.mem_singleton.mp hmem]
    exact hpass
  have hhandle : deliver (Stage.featureGenerator g) [message] =
      (Component.handle g message).map .featureGenerator :=
    deliver_singleton (Stage.featureGenerator g) haccepts
  have hrun := run_silent (Stage.featureGenerator g) [] [message]
    (by rw [hhandle]; exact hsilent)
  rw [hhandle] at hrun
  unfold send stages
  rw [run_cons_of_send hleaf]
  refine ⟨hrun.1, ?_, hrun.2.2⟩
  exact congrArg (List.cons _) hrun.2.1

theorem send_data (blob : Blob) :
    (send (stages s g) (.data blob)).messages = [] ∧
      (send (stages s g) (.data blob)).state =
        stages s (g.receive blob).state ∧
      (send (stages s g) (.data blob)).refusal = (g.receive blob).refusal :=
  send_passed s g (.data blob) rfl rfl (g.receive_messages blob)

theorem heardFrom_data (blob : Blob) :
    heardFrom (stages s g) (.data blob) =
      if blob.header.id = collectorId then g.data.report? blob else none := by
  rw [heardFrom_blob, (send_data s g blob).2.2]
  by_cases hid : blob.header.id = collectorId
  · rw [if_pos hid, if_pos hid]
    exact (g.report?_eq hid).symm
  · rw [if_neg hid, if_neg hid]

theorem handle_linked {message : Message} (h : isLinked message = true) :
    Component.accepts s message = false ∧
      Component.accepts g message = true ∧
      (Component.handle g message).messages = [] ∧
      (Component.handle g message).state =
        { g with application := g.application.hear message } := by
  cases message with
  | initialLinkedObjects | linkedObjectGroup | loadedLinkedObject
  | unloadedLinkedObject | symbolTable =>
      exact ⟨rfl, rfl, rfl, rfl⟩
  | _ =>
      cases h

theorem send_linked {message : Message} (h : isLinked message = true) :
    (send (stages s g) message).messages = [] ∧
      (send (stages s g) message).state =
        stages s { g with application := g.application.hear message } := by
  rcases handle_linked s g h with ⟨hpass, haccepts, hsilent, hstate⟩
  have hsend := send_passed s g message hpass haccepts hsilent
  rw [hstate] at hsend
  exact ⟨hsend.1, hsend.2.1⟩

end Stages

/-! ## The end of a run -/

/-- What comes out at the end: the counts of the program counters, and for
every thread its linked objects, its data and its features. -/
structure Output where
  buffer : AddressBuffer
  threads : List ThreadName
  group : ThreadName → ObjectGroupRecord
  blobs : ThreadName → List Blob
  vector : ThreadName → FeatureVector

def Output.messages (o : Output) : List Message :=
  .addressBuffer o.buffer ::
    (o.threads.flatMap (fun thread =>
      .linkedObjectGroup (o.group thread) ::
        ((o.blobs thread).map Message.data ++ [.feature (o.vector thread)])) ++
      [.threadsFinished true])

/-- What an output shows of the messages before: the counts of the program
counters in them, the threads attached to in their order, and for each of them
all its mappings in the order of the loads, its data with the completions where
they belong, and its features. -/
structure Output.Shows (o : Output) (before : List Message) : Prop where
  counts : ∀ x, o.buffer.count x = UInt64.ofNat ((observed before).count x)
  ascending : o.threads.Pairwise fun t u => compare t u = .lt
  attached : ∀ t, t ∈ o.threads ↔ Attached announced before t
  named : ∀ t ∈ o.threads, (ThreadRecord.ofName t).name = t
  group : ∀ t, o.group t = ⟨.ofName t,
    ((Application.ofMessages before).spaces.mappings.filter fun m =>
      m.thread = t).map Mapping.toRecord⟩
  blobs : ∀ t,
    (receive ∅ (cudaBlobs before)).reshuffled t = .ok (o.blobs t)
  vector : ∀ t,
    Features.ofThread (receive ∅ (cudaBlobs before)) t = .ok (o.vector t)
  vector_thread : ∀ t, (o.vector t).thread = t
  vector_names : ∀ t, (o.vector t).features.map Feature.name =
    Features.names.map Utf8.encode
  /-- If all accepted data came from these threads then all of it is sent. -/
  records : bytesOf (heard clustering before) < 2 ^ 64 →
    (∀ report ∈ heard clustering before, report.thread ∈ o.threads) →
      ∃ ds, (o.threads.flatMap o.blobs).mapM Data.ofBlob = .ok ds ∧
        (ds.flatMap Data.records).Perm ((heard clustering before).flatMap
          fun report => report.data.records)

section Terminal

variable {s : ClusteringLeaf} {g : FeatureGenerator}

theorem handle_changed (r : StateChangeRecord) :
    Component.handle s (.threadsStateChanged r) =
      if (s.tracker.update r).2 then
        .send ⟨(s.tracker.update r).1⟩
          (ClusteringLeaf.terminalMessages ⟨(s.tracker.update r).1⟩)
      else .quiet ⟨(s.tracker.update r).1⟩ :=
  rfl

theorem sendData_eq {thread : ThreadName} {blobs : List Blob}
    (h : g.data.reshuffled thread = .ok blobs) :
    g.sendData thread = .send g
      (.linkedObjectGroup (g.application.spaces.groupRecord thread) ::
        blobs.map Message.data) := by
  unfold FeatureGenerator.sendData
  rw [h]
  rfl

theorem sendFeatures_eq {thread : ThreadName} {vector : FeatureVector}
    (h : Features.ofThread g.data thread = .ok vector) :
    g.sendFeatures thread = .send g [.feature vector] := by
  unfold FeatureGenerator.sendFeatures
  rw [h]

def Output.answer (o : Output) : Message → List Message
  | .emitAddressBuffer true => [.addressBuffer o.buffer]
  | .emitData thread =>
      .linkedObjectGroup (o.group thread) ::
        (o.blobs thread).map Message.data
  | .emitFeatures thread => [.feature (o.vector thread)]
  | other => [other]

theorem Output.messages_eq {o : Output}
    (hthreads : o.threads = s.tracker.threads.keys) :
    s.terminalMessages.flatMap o.answer = o.messages := by
  unfold ClusteringLeaf.terminalMessages Output.messages
  rw [List.flatMap_append, List.flatMap_append, List.flatMap_assoc, hthreads,
    List.append_assoc]
  simp only [List.flatMap_cons, List.flatMap_nil, List.append_nil]
  rfl

theorem deliver_terminal {o : Output} (hbuffer : o.buffer = g.buffer)
    (hthreads : o.threads = s.tracker.threads.keys)
    (hgroup : ∀ t, o.group t = g.application.spaces.groupRecord t)
    (hblobs : ∀ t, g.data.reshuffled t = .ok (o.blobs t))
    (hvector : ∀ t, Features.ofThread g.data t = .ok (o.vector t)) :
    deliver (Stage.featureGenerator g) s.terminalMessages =
      .send (.featureGenerator g) o.messages := by
  rw [← Output.messages_eq hthreads]
  apply deliver_steady
  intro message hmem
  rcases List.mem_append.mp hmem with hmem | hmem
  · left
    rcases List.mem_append.mp hmem with hmem | hmem
    · rw [List.mem_singleton.mp hmem]
      refine ⟨rfl, ?_⟩
      unfold Output.answer
      rw [hbuffer]
      rfl
    · rcases List.mem_flatMap.mp hmem with ⟨t, _, hrequest⟩
      rcases List.mem_pair.mp hrequest with rfl | rfl
      · refine ⟨rfl, ?_⟩
        change (g.sendData t).map Stage.featureGenerator = _
        rw [sendData_eq (hblobs t), ← hgroup]
        rfl
      · refine ⟨rfl, ?_⟩
        change (g.sendFeatures t).map Stage.featureGenerator = _
        rw [sendFeatures_eq (hvector t)]
        rfl
  · right
    rw [List.mem_singleton.mp hmem]
    exact ⟨rfl, rfl⟩

theorem send_changed {r : StateChangeRecord}
    (hmore : ¬(s.tracker.update r).2 = true) :
    send (stages s g) (.threadsStateChanged r) =
      .quiet (stages ⟨(s.tracker.update r).1⟩ g) := by
  have hleaf : deliver (Stage.clusteringLeaf s) [.threadsStateChanged r] =
      .quiet (.clusteringLeaf ⟨(s.tracker.update r).1⟩) := by
    rw [deliver_singleton _ rfl]
    change (Component.handle s (.threadsStateChanged r)).map _ = _
    rw [handle_changed, if_neg hmore]
    rfl
  unfold send stages
  rw [run_cons_of_send hleaf, run_nil]
  rfl

theorem send_last {r : StateChangeRecord}
    (hlast : (s.tracker.update r).2 = true) {o : Output}
    (hanswer : deliver (Stage.featureGenerator g)
      (ClusteringLeaf.terminalMessages ⟨(s.tracker.update r).1⟩) =
        .send (.featureGenerator g) o.messages) :
    send (stages s g) (.threadsStateChanged r) =
      .send (stages ⟨(s.tracker.update r).1⟩ g) o.messages := by
  have hleaf : deliver (Stage.clusteringLeaf s) [.threadsStateChanged r] =
      .send (.clusteringLeaf ⟨(s.tracker.update r).1⟩)
        (ClusteringLeaf.terminalMessages ⟨(s.tracker.update r).1⟩) := by
    rw [deliver_singleton _ rfl]
    change (Component.handle s (.threadsStateChanged r)).map _ = _
    rw [handle_changed, if_pos hlast]
    rfl
  unfold send stages
  rw [run_cons_of_send hleaf, run_cons_of_send hanswer]
  rfl

end Terminal

/-! ## The invariant -/

structure Knows (before : List Message) (s : ClusteringLeaf)
    (g : FeatureGenerator) : Prop where
  tracker : Follows announced before s.tracker
  application : g.application = .ofMessages before
  observes : Observes before g
  reports : heard clustering before = accepted ∅ (cudaBlobs before)

theorem knows_nil : Knows [] .empty .empty :=
  ⟨follows_nil, rfl, observes_nil, rfl⟩

section Knowing

variable {before : List Message} {message : Message} {s s' : ClusteringLeaf}
  {g : FeatureGenerator}

theorem Knows.data_step (h : Knows before s g)
    (hafter : after clustering before = stages s g) (blob : Blob) :
    Knows (before ++ [.data blob]) s (g.receive blob).state := by
  have hheard := heardFrom_data s g blob
  rw [h.observes.data] at hheard
  constructor
  · exact h.tracker.attach fun r heq => by cases heq
  · rw [g.application_receive, Application.ofMessages_append]
    exact h.application
  · exact h.observes.data_step blob
  · exact heard_eq_accepted_data hafter h.reports hheard

theorem Knows.other (h : Knows before s g)
    (hafter : after clustering before = stages s g)
    (hdata : ∀ blob, message ≠ .data blob)
    (htracker : Follows announced (before ++ [message]) s'.tracker) :
    Knows (before ++ [message]) s'
      { g with application := g.application.hear message } := by
  constructor
  · exact htracker
  · rw [Application.ofMessages_append, h.application]
  · exact h.observes.other hdata rfl rfl
  · exact heard_eq_accepted_other hafter h.reports hdata

theorem Knows.send_last (h : Knows before s g) {r : StateChangeRecord}
    (hlast : (s.tracker.update r).2 = true) :
    ∃ o : Output,
      send (stages s g) (.threadsStateChanged r) =
        .send (stages ⟨(s.tracker.update r).1⟩ g) o.messages ∧
      o.Shows before := by
  have hreshuffled : ∀ t, ∃ blobs, g.data.reshuffled t = .ok blobs := by
    rw [h.observes.data]
    exact exists_reshuffled (cudaBlobs before)
  choose blobs hblobs using hreshuffled
  choose vector hvector hthread hnames using Features.exists_ofThread g.data
  let o : Output :=
    ⟨g.buffer, (s.tracker.update r).1.threads.keys,
      g.application.spaces.groupRecord, blobs, vector⟩
  have hanswer : deliver (Stage.featureGenerator g)
      (ClusteringLeaf.terminalMessages ⟨(s.tracker.update r).1⟩) =
        .send (.featureGenerator g) o.messages :=
    deliver_terminal rfl rfl (fun _ => rfl) hblobs hvector
  have hkeys : ∀ t, t ∈ o.threads ↔ Attached announced before t := by
    intro t
    refine (h.tracker.change r rfl).1.mem_keys_iff.trans ?_
    rw [attached_append, not_announces rfl]
    exact or_iff_left Bool.false_ne_true
  have hsound : g.application.Sound := by
    rw [h.application]
    exact Application.sound_ofMessages before
  refine ⟨o, Clustering.send_last hlast hanswer, ?_⟩
  rw [h.observes.data] at hblobs hvector
  constructor
  · intro x
    change g.buffer.count x = _
    rw [h.observes.buffer, AddressBuffer.count_observeAll]
    exact UInt64.zero_add _
  · exact OrderedMap.ascending_keys _
  · exact hkeys
  · intro t ht
    exact name_of_attached ((hkeys t).mp ht)
  · intro t
    rw [← h.application, ← hsound.indexed.agreement.thread]
    rfl
  · exact hblobs
  · exact hvector
  · exact hthread
  · exact hnames
  · intro hmemory hall
    rw [h.reports] at hmemory hall ⊢
    rw [bytesOf_accepted] at hmemory
    exact perm_records_shown hmemory (OrderedMap.nodup_keys _) hall
      fun t _ => hblobs t

theorem Knows.step (h : Knows before s g)
    (hafter : after clustering before = stages s g)
    (hinput : isInput message = true) :
    ∃ s' g', (send (stages s g) message).state = stages s' g' ∧
      Knows (before ++ [message]) s' g' := by
  rcases input_cases hinput with ⟨blob, rfl⟩ | ⟨r, rfl⟩ | ⟨r, rfl⟩ | hlinked
  · exact ⟨s, _, (send_data s g blob).2.1, h.data_step hafter blob⟩
  · refine ⟨_, g, congrArg Reply.state (send_attached s g r), ?_⟩
    exact h.other hafter (fun blob heq => by cases heq)
      (h.tracker.attach fun r heq => by cases heq)
  · have hknows : Knows (before ++ [.threadsStateChanged r])
        ⟨(s.tracker.update r).1⟩ g :=
      h.other hafter (fun blob heq => by cases heq)
        (h.tracker.change r rfl).1
    by_cases hlast : (s.tracker.update r).2 = true
    · rcases h.send_last hlast with ⟨o, hsend, _⟩
      exact ⟨_, g, congrArg Reply.state hsend, hknows⟩
    · exact ⟨_, g, congrArg Reply.state (send_changed hlast), hknows⟩
  · refine ⟨s, _, (send_linked s g hlinked).2, ?_⟩
    have hdata : ∀ blob, message ≠ .data blob := by
      intro blob heq
      subst heq
      cases hlinked
    have hchange : ∀ r, message ≠ .threadsStateChanged r := by
      intro r heq
      subst heq
      cases hlinked
    have htracker := h.tracker.attach hchange
    have hnone : announced message = [] := by
      cases message with
      | attachedToThreads r =>
          cases hlinked
      | _ =>
          rfl
    rw [hnone] at htracker
    exact h.other hafter hdata htracker

end Knowing

theorem knows_after (messages : List Message)
    (hinputs : ∀ message ∈ messages, isInput message = true) :
    ∃ s g, after clustering messages = stages s g ∧ Knows messages s g := by
  induction messages using List.reverseRecOn with
  | nil =>
      exact ⟨_, _, rfl, knows_nil⟩
  | append_singleton before message ih =>
      rcases List.forall_mem_append.mp hinputs with ⟨hbefore, hlast⟩
      rcases ih hbefore with ⟨s, g, hafter, hknows⟩
      rw [after_append, hafter]
      exact hknows.step hafter (hlast message (List.mem_singleton_self _))

/-- Whatever messages come in: nothing is sent until a state change leaves some
threads that were attached to, and all of them terminated. The first one to do
so is accepted and answered in full, and nothing is sent ever again. -/
theorem sends_features_once (before : List Message) (message : Message)
    (hinputs : ∀ sent ∈ before ++ [message], isInput sent = true) :
    (¬(Ends announced before message ∧ ¬Ended announced before) →
      (send (after clustering before) message).messages = []) ∧
    (Ends announced before message ∧ ¬Ended announced before →
      (send (after clustering before) message).refusal = none ∧
        ∃ o : Output,
          (send (after clustering before) message).messages = o.messages ∧
          o.Shows before) := by
  rcases List.forall_mem_append.mp hinputs with ⟨hbefore, hlast⟩
  have hinput : isInput message = true :=
    hlast message (List.mem_singleton_self _)
  rcases knows_after before hbefore with ⟨s, g, hafter, hknows⟩
  rw [hafter]
  constructor
  · intro hnot
    rcases input_cases hinput with ⟨blob, rfl⟩ | ⟨r, rfl⟩ | ⟨r, rfl⟩ | hlinked
    · exact (send_data s g blob).1
    · rw [send_attached]
      rfl
    · rw [← (hknows.tracker.change r rfl).2] at hnot
      rw [send_changed hnot]
      rfl
    · exact (send_linked s g hlinked).1
  · intro hends
    rcases hends.1.1 with ⟨r, rfl⟩
    rcases hknows.send_last ((hknows.tracker.change r rfl).2.mpr hends) with
      ⟨o, hsend, hshows⟩
    rw [hsend]
    exact ⟨rfl, o, rfl, hshows⟩

def isLast (message : Message) : List Stage → Bool
  | .clusteringLeaf s :: _ =>
      match message with
      | .threadsStateChanged r => (s.tracker.update r).2
      | _ => false
  | _ => false

theorem sends_features_once_two_threads :
    (∀ sent ∈ twoThreads ++ [lastChange], isInput sent = true) ∧
    (Ends announced twoThreads lastChange ∧ ¬Ended announced twoThreads) ∧
    ∃ o : Output, (send (after clustering twoThreads) lastChange).messages =
      o.messages ∧
      ∃ ds, (o.threads.flatMap o.blobs).mapM Data.ofBlob = .ok ds ∧
        (ds.flatMap Data.records).length = 3 := by
  have hinputs : ∀ sent ∈ twoThreads ++ [lastChange], isInput sent = true := by
    decide +kernel
  rcases knows_after twoThreads (List.forall_mem_append.mp hinputs).1 with
    ⟨s, g, hafter, hknows⟩
  have hlast : isLast lastChange (after clustering twoThreads) = true := by
    decide +kernel
  rw [hafter] at hlast
  have hends := (hknows.tracker.change _ rfl).2.mp hlast
  have hall : ∀ report ∈ heard clustering twoThreads,
      Attached announced twoThreads report.thread := by
    decide +kernel
  have hnumber : ((heard clustering twoThreads).flatMap
      fun report => report.data.records).length = 3 := by
    decide +kernel
  rcases (sends_features_once twoThreads lastChange hinputs).2 hends with
    ⟨_, o, hmessages, hshows⟩
  rcases hshows.records (by decide +kernel) (fun report hreport =>
    (hshows.attached _).mpr (hall report hreport)) with ⟨ds, hds, hperm⟩
  exact ⟨hinputs, hends, o, hmessages, ds, hds, hperm.length_eq.trans hnumber⟩

end Clustering
end CudaProfile
