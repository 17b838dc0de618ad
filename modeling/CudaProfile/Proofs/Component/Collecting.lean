import CudaProfile.Proofs.AddressSet.Algebra
import CudaProfile.Proofs.Component.Handling
import CudaProfile.Proofs.Component.Reports
import CudaProfile.Proofs.Cuda.Acceptance
import CudaProfile.Proofs.Cuda.Reshuffling
import CudaProfile.Proofs.Visit
/-!
# What a data aggregator has collected

The addresses of a data aggregator grow with every blob that counts, and its
data keep the blobs and are read again for every visit. Both tell of the same
program counters, whatever messages have come.
-/

namespace CudaProfile

open Cuda PerformanceData Pipeline

/-! ## Single blobs -/

namespace DataAggregator

variable (d : DataAggregator)

theorem receive_messages (blob : Blob) : (d.receive blob).messages = [] := by
  unfold receive
  split
  · rfl
  · simp only
    split
    · rfl
    · split
      · rfl
      · rfl

theorem receive_of_ne {blob : Blob} (hid : blob.header.id ≠ collectorId) :
    d.receive blob = .quiet d := by
  unfold receive
  rw [if_pos hid]

theorem receive_eq {blob : Blob} (hid : blob.header.id = collectorId) :
    (d.receive blob).state.data = (d.data.apply blob).state ∧
      (d.receive blob).state.addresses =
        match d.data.report? blob with
        | some report => withPcs d.addresses report.data.pcs
        | none => d.addresses := by
  unfold receive report?
  rw [if_neg (by simp [hid])]
  cases hblob : Data.ofBlob blob with
  | error error =>
      have happly : (d.data.apply blob).state = d.data := by
        unfold apply
        rw [hblob]
        rfl
      exact ⟨happly.symm, rfl⟩
  | ok data =>
      simp only
      cases (d.data.apply blob).refusal with
      | none =>
          exact ⟨rfl, rfl⟩
      | some error =>
          exact ⟨rfl, rfl⟩

theorem report?_eq {blob : Blob} (hid : blob.header.id = collectorId) :
    d.data.report? blob =
      match (d.receive blob).refusal, Data.ofBlob blob with
      | none, .ok data => some ⟨blob, data⟩
      | _, _ => none := by
  unfold receive report?
  rw [if_neg (by simp [hid])]
  cases Data.ofBlob blob with
  | error error =>
      rfl
  | ok data =>
      simp only
      cases (d.data.apply blob).refusal with
      | none =>
          rfl
      | some error =>
          rfl

theorem contains_withPcs (addresses : AddressSet) (pcs : List Address)
    (x : Address) :
    (withPcs addresses pcs).contains x =
      (addresses.contains x || decide (x ∈ pcs)) := by
  unfold withPcs
  split
  · next hempty =>
    rw [List.isEmpty_iff.mp hempty]
    simp
  · rw [AddressSet.contains_union, AddressSet.contains_ofAddresses]

theorem state_handle_of_ne {message : Message}
    (h : ∀ blob, message ≠ .data blob) :
    (Component.handle d message).state = d := by
  cases message with
  | data blob =>
      exact absurd rfl (h blob)
  | triggerAddressBuffer trigger =>
      cases trigger with
      | false =>
          rfl
      | true =>
          rfl
  | triggerData trigger =>
      cases trigger with
      | false =>
          rfl
      | true =>
          rfl
  | _ =>
      rfl

theorem blobsOf_eq {data : PerformanceData} {shown : ThreadName → List Blob}
    {keys : List ThreadName}
    (h : ∀ t ∈ keys, data.reshuffled t = .ok (shown t)) :
    blobsOf data keys = (keys.flatMap shown, none) := by
  induction keys with
  | nil =>
      rfl
  | cons t rest ih =>
      rcases List.forall_mem_cons.mp h with ⟨ht, hrest⟩
      rw [blobsOf, ht, ih hrest]
      rfl

end DataAggregator

/-! ## The program counters in the data -/

theorem Cuda.Data.ne_zero_of_mem_pcs {d : Data} {pc : Address}
    (h : pc ∈ d.pcs) : pc ≠ 0 := by
  rcases List.mem_flatMap.mp h with ⟨record, _, hpc⟩
  exact of_decide_eq_true (List.mem_filter.mp hpc).2

namespace Collecting

/-- The program counters of reports by thread: for each thread its reports as
they came, and in each of those the records in their order. -/
def pcsBy (threads : List ThreadName) (reports : List Report) : List Address :=
  threads.flatMap fun t =>
    (reports.filter fun report => report.thread = t).flatMap fun report =>
      report.data.records.flatMap report.data.pcsOf

theorem mem_pcsBy {threads : List ThreadName} {reports : List Report}
    (hthreads : ∀ report ∈ reports, report.thread ∈ threads) (pc : Address) :
    pc ∈ pcsBy threads reports ↔
      pc ∈ reports.flatMap fun report => report.data.pcs := by
  constructor
  · intro h
    rcases List.mem_flatMap.mp h with ⟨t, _, ht⟩
    rcases List.mem_flatMap.mp ht with ⟨report, hreport, hpc⟩
    exact List.mem_flatMap.mpr ⟨report, List.mem_of_mem_filter hreport, hpc⟩
  · intro h
    rcases List.mem_flatMap.mp h with ⟨report, hreport, hpc⟩
    refine List.mem_flatMap.mpr ⟨_, hthreads report hreport, ?_⟩
    have hown : report ∈ reports.filter fun other =>
        other.thread = report.thread :=
      List.mem_filter.mpr ⟨hreport, decide_eq_true rfl⟩
    exact List.mem_flatMap.mpr ⟨report, hown, hpc⟩

section Visits

variable {σ : Type} (visitor : σ → Address → σ × Bool)

theorem visitBlobPcs_eq {reports : List Report}
    (h : ∀ report ∈ reports, Data.ofBlob report.blob = .ok report.data)
    (state : σ) :
    visitBlobPcs visitor state (reports.map Report.blob) =
      .ok (visit visitor state (reports.flatMap fun report =>
        report.data.pcs)) := by
  induction reports generalizing state with
  | nil =>
      rfl
  | cons report rest ih =>
      rcases List.forall_mem_cons.mp h with ⟨hreport, hrest⟩
      rw [List.flatMap_cons, visit_append, List.map_cons, visitBlobPcs, hreport]
      cases hmore : (visit visitor state report.data.pcs).2 with
      | true =>
          simp only [if_true]
          rw [← ih hrest]
          simp [bind, Except.bind, hmore]
      | false =>
          simp [bind, Except.bind, pure, Except.pure, hmore]

theorem visitPcs_receive (arrivals : List Blob) (state : σ) :
    (receive ∅ arrivals).visitPcs visitor state =
      .ok (visit visitor state
        (pcsBy (receive ∅ arrivals).threads.keys (accepted ∅ arrivals))) := by
  have hblobs : (receive ∅ arrivals).allBlobs =
      ((receive ∅ arrivals).threads.keys.flatMap fun t =>
        (accepted ∅ arrivals).filter fun report => report.thread = t).map
          Report.blob := by
    rw [allBlobs_eq, List.map_flatMap]
    apply List.flatMap_congr
    intro t _
    exact blobs_receive arrivals t
  unfold visitPcs
  rw [hblobs, visitBlobPcs_eq, List.flatMap_assoc]
  · rfl
  · intro report hmem
    rcases List.mem_flatMap.mp hmem with ⟨t, _, hreport⟩
    exact ofBlob_of_mem_accepted (List.mem_of_mem_filter hreport)

end Visits

/-! ## Messages -/

structure Collects (messages : List Message) (s : DataAggregator) : Prop where
  data : s.data = receive ∅ (cudaBlobs messages)
  addresses : ∀ x, s.addresses.contains x =
    decide (x ∈ (accepted ∅ (cudaBlobs messages)).flatMap
      fun report => report.data.pcs)

variable {messages : List Message} {s : DataAggregator}

theorem Collects.other {message : Message} (h : Collects messages s)
    (hdata : ∀ blob, message ≠ .data blob) :
    Collects (messages ++ [message]) s := by
  constructor
  · rw [cudaBlobs_append_of_ne messages hdata]
    exact h.data
  · rw [cudaBlobs_append_of_ne messages hdata]
    exact h.addresses

theorem Collects.data_step (h : Collects messages s) (blob : Blob) :
    Collects (messages ++ [.data blob]) (s.receive blob).state := by
  by_cases hid : blob.header.id = collectorId
  · rcases s.receive_eq hid with ⟨hdata, haddresses⟩
    have hblobs : cudaBlobs (messages ++ [.data blob]) =
        cudaBlobs messages ++ [blob] := by
      rw [cudaBlobs_append, cudaBlobs_data, if_pos hid]
    constructor
    · rw [hblobs, receive_append, ← h.data, hdata]
      rfl
    · intro x
      rw [haddresses, hblobs, accepted_append, ← h.data, List.flatMap_append]
      cases hreport : s.data.report? blob with
      | none =>
          simp [accepted, hreport, h.addresses]
      | some report =>
          simp [accepted, hreport, h.addresses,
            DataAggregator.contains_withPcs]
  · have hblobs : cudaBlobs (messages ++ [.data blob]) =
        cudaBlobs messages := by
      rw [cudaBlobs_append, cudaBlobs_data, if_neg hid, List.append_nil]
    rw [s.receive_of_ne hid]
    constructor
    · rw [hblobs]
      exact h.data
    · rw [hblobs]
      exact h.addresses

theorem Collects.step (h : Collects messages s) (message : Message) :
    Collects (messages ++ [message]) (Component.handle s message).state := by
  by_cases hdata : ∃ blob, message = .data blob
  · rcases hdata with ⟨blob, rfl⟩
    exact h.data_step blob
  · have hother : ∀ blob, message ≠ .data blob := by
      intro blob heq
      exact hdata ⟨blob, heq⟩
    rw [s.state_handle_of_ne hother]
    exact h.other hother

theorem collects_nil (debug : Bool) : Collects [] (.new debug) := by
  constructor
  · rfl
  · intro x
    rfl

theorem collects_after (debug : Bool) (messages : List Message) :
    Collects messages
      (Component.after (DataAggregator.new debug) messages) := by
  induction messages using List.reverseRecOn with
  | nil =>
      exact collects_nil debug
  | append_singleton before message ih =>
      rw [Component.after_append]
      exact ih.step message

theorem state_of_refused {blob : Blob}
    (h : (Component.handle s (.data blob)).refusal ≠ none) :
    (Component.handle s (.data blob)).state = s := by
  change (s.receive blob).refusal ≠ none at h
  change (s.receive blob).state = s
  unfold DataAggregator.receive at h ⊢
  split
  · rfl
  · next hid =>
    rw [if_neg hid] at h
    simp only at h ⊢
    split
    · rfl
    · next d hdata =>
      rw [hdata] at h
      split
      · next error hrefused =>
        have happly : (s.data.apply blob).refusal ≠ none := by
          rw [hrefused]
          exact nofun
        rcases apply_of_refused happly with ⟨_, hsame⟩
        rw [hsame]
        rfl
      · next happlied =>
        simp only [happlied] at h
        exact absurd rfl h

/-! ## The addresses and the data -/

/-- Visits of the program counters of data: a visitor that never has enough sees
all of them, and any other one those that suffice. -/
structure Shows (p : PerformanceData) (pcs : List Address) : Prop where
  all : p.visitPcs (keepUpTo none) [] = .ok (pcs, true)
  some_of : ∀ {σ : Type} (visitor : σ → Address → σ × Bool) (state : σ),
    ∃ seen more, Suffices visitor state pcs seen ∧
      p.visitPcs visitor state =
        .ok (afterSeeing visitor state seen, more) ∧
      p.visitPcs (recorded visitor) ([], state) =
        .ok ((seen, afterSeeing visitor state seen), more)

theorem shows_receive (arrivals : List Blob) :
    Shows (receive ∅ arrivals)
      (pcsBy (receive ∅ arrivals).threads.keys (accepted ∅ arrivals)) := by
  constructor
  · rw [visitPcs_receive, visit_keepUpTo_none]
    rfl
  · intro σ visitor state
    rcases visit_suffices visitor state
      (pcsBy (receive ∅ arrivals).threads.keys (accepted ∅ arrivals)) with
      ⟨seen, more, hseen, hvisit, hrecorded⟩
    refine ⟨seen, more, hseen, ?_, ?_⟩
    · rw [visitPcs_receive, hvisit]
    · rw [visitPcs_receive, hrecorded]
      rfl

/-- After any messages, the addresses of a data aggregator are the program
counters that a visit of its data shows: those of the accepted blobs, thread
after thread. A blob that is refused changes neither. -/
theorem addresses_match_data (debug : Bool) (messages : List Message) :
    let s := Component.after (DataAggregator.new debug) messages
    let reports := accepted ∅ (cudaBlobs messages)
    ∃ threads : List ThreadName,
      threads.Pairwise (fun t u => compare t u = .lt) ∧
      (∀ t, t ∈ threads ↔ ∃ report ∈ reports, report.thread = t) ∧
      (∀ pc ∈ pcsBy threads reports, pc ≠ 0) ∧
      Shows s.data (pcsBy threads reports) ∧
      (∀ x, s.addresses.contains x = true ↔ x ∈ pcsBy threads reports) ∧
      ∀ blob, (Component.handle s (.data blob)).refusal ≠ none →
        (Component.handle s (.data blob)).state.addresses = s.addresses ∧
          (Component.handle s (.data blob)).state.data = s.data := by
  intro s reports
  have hcollects : Collects messages s := collects_after debug messages
  have hreported := reported_receive (cudaBlobs messages)
  have hmem (pc : Address) : pc ∈ pcsBy s.data.threads.keys reports ↔
      pc ∈ reports.flatMap fun report => report.data.pcs := by
    apply mem_pcsBy
    intro report hreport
    rw [hcollects.data]
    exact (hreported.keys _).mpr ⟨report, hreport, rfl⟩
  refine ⟨s.data.threads.keys, OrderedMap.ascending_keys _, ?_, ?_, ?_, ?_, ?_⟩
  · rw [hcollects.data]
    exact hreported.keys
  · intro pc hpc
    rcases List.mem_flatMap.mp ((hmem pc).mp hpc) with ⟨report, _, hreport⟩
    exact Data.ne_zero_of_mem_pcs hreport
  · rw [hcollects.data]
    exact shows_receive _
  · intro x
    rw [hcollects.addresses, decide_eq_true_iff, hmem]
  · intro blob hrefused
    rw [state_of_refused hrefused]
    exact ⟨rfl, rfl⟩

def requestBlob (pid : UInt64) (frames : List Address) : Blob :=
  Data.toBlob ⟨[.request ⟨.memoryCopy, 10, 1, 2, 3, 0⟩], frames⟩
    ⟨0, 0, collectorId, .ofName ⟨"a", pid, none, none⟩, ⟨0, 1⟩⟩

def twoReports : List Message :=
  let other : Blob := requestBlob 3 [5, 0]
  [.data (requestBlob 2 [7, 8, 0]),
    .data { other with header := { other.header with id := "other" } },
    .data { other with payload := [255] },
    .data (requestBlob 1 [9, 7, 0, 6])]

theorem addresses_match_data_two_reports :
    let s := Component.after (DataAggregator.new false) twoReports
    let unread : Blob := { requestBlob 3 [5, 0] with payload := [255] }
    (Component.handle s (.data unread)).refusal ≠ none ∧
    (Component.handle s (.data unread)).state.addresses = s.addresses ∧
    (s.data.visitPcs (keepUpTo none) []).toOption =
      some ([9, 7, 7, 8], true) ∧
    (s.data.visitPcs (keepUpTo (some 2)) []).toOption =
      some ([9, 7], false) ∧
    s.addresses.contains 8 = true ∧ ¬s.addresses.contains 6 = true := by
  intro s unread
  have hrefused : (Component.handle s (.data unread)).refusal ≠ none := by
    decide +kernel
  have hall : (s.data.visitPcs (keepUpTo none) []).toOption =
      some ([9, 7, 7, 8], true) := by
    decide +kernel
  rcases addresses_match_data false twoReports with
    ⟨threads, _, _, _, hshows, hcontains, hkeeps⟩
  have hpcs : pcsBy threads (accepted ∅ (cudaBlobs twoReports)) =
      [9, 7, 7, 8] := by
    rw [hshows.all] at hall
    exact congrArg Prod.fst (Option.some.inj hall)
  rw [hpcs] at hcontains
  exact ⟨hrefused, (hkeeps unread hrefused).1, hall, by decide +kernel,
    (hcontains 8).mpr (by decide), fun h => absurd ((hcontains 6).mp h)
      (by decide)⟩

end Collecting
end CudaProfile
