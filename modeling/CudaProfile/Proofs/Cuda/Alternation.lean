import CudaProfile.Proofs.Cuda.Pairing
import CudaProfile.Proofs.Cuda.Reshuffling
/-!
# Keys that are used again

A key is free again once its request has been completed, and another request may
take it. As long as requests and completions of every key take turns, each
completion is joined with the request right before it and stored for the thread
of that request. What is shown goes by the latest request of a key instead. So
the two agree exactly if no key is requested by two threads.
-/

namespace CudaProfile
namespace Cuda

open Std Lexicographic

/-! ## Events -/

inductive Event where
  | request (asked : Asked)
  | completion (completed : RequestKey × Completion)
deriving DecidableEq

namespace Event

def key : Event → RequestKey
  | request a => a.key
  | completion c => c.1

def asked? : Event → Option Asked
  | request a => some a
  | completion _ => none

def completed? : Event → Option (RequestKey × Completion)
  | request _ => none
  | completion c => some c

end Event

def eventOf (t : ThreadName) (d : Data) (record : Record) : Option Event :=
  match record.completion? with
  | some c => some (.completion c)
  | none => (askedBy t d record).map .request

def events (reports : List Report) : List Event :=
  reports.flatMap fun report =>
    report.data.records.filterMap (eventOf report.thread report.data)

theorem events_push (reports : List Report) (blob : Blob) (d : Data)
    (record : Record) :
    events (reports ++ [⟨blob, d.push record⟩]) =
      events (reports ++ [⟨blob, d⟩]) ++
        (eventOf blob.thread d record).toList :=
  filterMap_records_push (f := fun report =>
    eventOf report.thread report.data) reports blob d record rfl

theorem asked?_eventOf (t : ThreadName) (d : Data) (record : Record) :
    (eventOf t d record).bind Event.asked? = askedBy t d record := by
  unfold eventOf
  cases hrecord : record.completion? with
  | some c =>
      unfold askedBy
      rw [request?_of_completion? hrecord]
      rfl
  | none =>
      cases askedBy t d record with
      | none =>
          rfl
      | some a =>
          rfl

theorem completed?_eventOf (t : ThreadName) (d : Data) (record : Record) :
    (eventOf t d record).bind Event.completed? = record.completion? := by
  unfold eventOf
  cases record.completion? with
  | some c =>
      rfl
  | none =>
      cases askedBy t d record with
      | none =>
          rfl
      | some a =>
          rfl

theorem filterMap_asked?_events (reports : List Report) :
    (events reports).filterMap Event.asked? = asked reports := by
  unfold events asked
  rw [List.filterMap_flatMap]
  apply List.flatMap_congr
  intro report _
  rw [List.filterMap_filterMap]
  simp only [asked?_eventOf]

theorem mem_events {reports : List Report} {a : Asked} :
    Event.request a ∈ events reports ↔ a ∈ asked reports := by
  rw [← filterMap_asked?_events, List.mem_filterMap]
  constructor
  · intro h
    exact ⟨.request a, h, rfl⟩
  · intro h
    rcases h with ⟨e, he, hasked⟩
    cases e with
    | request b =>
        cases hasked
        exact he
    | completion c =>
        cases hasked

theorem filterMap_completed?_events (reports : List Report) :
    (events reports).filterMap Event.completed? = completed reports := by
  unfold events completed
  rw [List.filterMap_flatMap]
  apply List.flatMap_congr
  intro report _
  rw [List.filterMap_filterMap]
  simp only [completed?_eventOf]

/-! ## Turns -/

/-- A request comes first, and then requests and completions take turns. -/
def TakeTurns (events : List Event) : Prop :=
  (∀ e ∈ events.head?, e.asked?.isSome) ∧
    events.IsChain fun e next => e.asked?.isSome ≠ next.asked?.isSome

def Alternating (events : List Event) : Prop :=
  ∀ key, TakeTurns (events.filter fun e => e.key = key)

instance (events : List Event) : Decidable (TakeTurns events) :=
  inferInstanceAs (Decidable (_ ∧ _))

theorem alternating_iff {events : List Event} :
    Alternating events ↔ ∀ e ∈ events,
      TakeTurns (events.filter fun other => other.key = e.key) := by
  constructor
  · intro h e _
    exact h e.key
  · intro h key
    by_cases hkey : ∃ e ∈ events, e.key = key
    · rcases hkey with ⟨e, he, rfl⟩
      exact h e he
    · have hnone : (events.filter fun e => e.key = key) = [] := by
        rw [List.filter_eq_nil_iff]
        intro e he hsame
        exact hkey ⟨e, he, of_decide_eq_true hsame⟩
      rw [hnone]
      exact ⟨by simp, .nil⟩

instance (events : List Event) : Decidable (Alternating events) :=
  decidable_of_iff _ alternating_iff.symm

def waiting (events : List Event) (key : RequestKey) : Option Asked :=
  (events.filter fun e => e.key = key).getLast?.bind Event.asked?

theorem waiting_append (events : List Event) (e : Event) (key : RequestKey) :
    waiting (events ++ [e]) key =
      if e.key = key then e.asked? else waiting events key := by
  unfold waiting
  by_cases h : e.key = key
  · simp [List.filter_append, h]
  · simp [List.filter_append, h]

theorem waiting_append_request (events : List Event) (a : Asked)
    (key : RequestKey) :
    waiting (events ++ [.request a]) key =
      if key = a.key then some a else waiting events key := by
  rw [waiting_append]
  exact if_congr eq_comm rfl rfl

theorem waiting_append_completion (events : List Event)
    (c : RequestKey × Completion) (key : RequestKey) :
    waiting (events ++ [.completion c]) key =
      if key = c.1 then none else waiting events key := by
  rw [waiting_append]
  exact if_congr eq_comm rfl rfl

theorem mem_of_waiting {events : List Event} {key : RequestKey} {a : Asked}
    (h : waiting events key = some a) :
    Event.request a ∈ events ∧ a.key = key := by
  rcases Option.bind_eq_some_iff.mp h with ⟨e, hlast, hasked⟩
  rcases List.mem_filter.mp (List.mem_of_getLast? hlast) with ⟨he, hkey⟩
  cases e with
  | request b =>
      cases hasked
      exact ⟨he, of_decide_eq_true hkey⟩
  | completion c =>
      cases hasked

theorem Alternating.of_append {events : List Event} {e : Event}
    (h : Alternating (events ++ [e])) :
    Alternating events ∧
      (e.asked?.isSome ↔ waiting events e.key = none) := by
  have hparts : ∀ key, ((events ++ [e]).filter fun other => other.key = key) =
      (events.filter fun other => other.key = key) ++
        [e].filter fun other => other.key = key :=
    fun key => List.filter_append _ _
  constructor
  · intro key
    rcases h key with ⟨hhead, hchain⟩
    rw [hparts] at hhead hchain
    refine ⟨?_, hchain.left_of_append⟩
    intro first hfirst
    apply hhead
    rw [List.head?_append, Option.mem_def.mp hfirst]
    rfl
  · rcases h e.key with ⟨hhead, hchain⟩
    have hself : ([e].filter fun other => other.key = e.key) = [e] := by
      simp
    rw [hparts, hself] at hhead hchain
    unfold waiting
    cases hlast : (events.filter fun other => other.key = e.key).getLast? with
    | none =>
        rw [List.getLast?_eq_none_iff.mp hlast] at hhead
        simp [hhead e rfl]
    | some last =>
        -- The last event of the key and the further one are neighbours.
        have hturn := (List.isChain_append.mp hchain).2.2 last hlast e rfl
        cases hlater : e.asked? with
        | none =>
            simpa [hlater] using hturn
        | some a =>
            simpa [hlater] using hturn

/-! ## Pairs in turns -/

def meets (before : List Event) : Event → Option (Asked × Completion)
  | .request _ => none
  | .completion c => (waiting before c.1).map fun a => (a, c.2)

def joinedAfter (before : List Event) : List Event → List (Asked × Completion)
  | [] => []
  | e :: later => (meets before e).toList ++ joinedAfter (before ++ [e]) later

/-- Every completion with the request of its key that is right before it. -/
def joined (events : List Event) : List (Asked × Completion) :=
  joinedAfter [] events

theorem joinedAfter_append (before events : List Event) (e : Event) :
    joinedAfter before (events ++ [e]) =
      joinedAfter before events ++ (meets (before ++ events) e).toList := by
  induction events generalizing before with
  | nil =>
      simp [joinedAfter]
  | cons first rest ih =>
      rw [List.cons_append, joinedAfter, ih, joinedAfter, List.append_assoc,
        List.append_assoc]
      rfl

theorem joined_append (events : List Event) (e : Event) :
    joined (events ++ [e]) = joined events ++ (meets events e).toList :=
  joinedAfter_append [] events e

def answer (pair : Asked × Completion) : RequestKey × Completion :=
  (pair.1.key, pair.2)

theorem map_answer_joined {events : List Event} (h : Alternating events) :
    (joined events).map answer = events.filterMap Event.completed? := by
  induction events using List.reverseRecOn with
  | nil =>
      rfl
  | append_singleton before e ih =>
      rcases h.of_append with ⟨hbefore, hturn⟩
      rw [joined_append, List.map_append, ih hbefore, List.filterMap_append]
      apply congrArg
      cases e with
      | request a =>
          rfl
      | completion c =>
          cases hwaiting : waiting before c.1 with
          | none =>
              have hrequest := hturn.mpr hwaiting
              cases hrequest
          | some a =>
              have hkey := (mem_of_waiting hwaiting).2
              simp [meets, hwaiting, answer, hkey, Event.completed?]

theorem mem_of_mem_joined {events : List Event} {pair : Asked × Completion}
    (h : pair ∈ joined events) : Event.request pair.1 ∈ events := by
  induction events using List.reverseRecOn with
  | nil =>
      cases h
  | append_singleton before e ih =>
      rw [joined_append] at h
      rcases List.mem_append.mp h with hearlier | hlast
      · exact List.mem_append_left _ (ih hearlier)
      · cases e with
        | request a =>
            cases hlast
        | completion c =>
            rcases Option.map_eq_some_iff.mp (Option.mem_toList.mp hlast) with
              ⟨a, hwaiting, rfl⟩
            exact List.mem_append_left _ (mem_of_waiting hwaiting).1

theorem mem_asked_of_mem_joined {reports : List Report}
    {pair : Asked × Completion} (h : pair ∈ joined (events reports)) :
    pair.1 ∈ asked reports :=
  mem_events.mp (mem_of_mem_joined h)

theorem joined_or_waiting {events : List Event} (h : Alternating events)
    {a : Asked} (ha : Event.request a ∈ events) :
    (∃ completion, (a, completion) ∈ joined events) ∨
      waiting events a.key = some a := by
  induction events using List.reverseRecOn with
  | nil =>
      cases ha
  | append_singleton before e ih =>
      rcases h.of_append with ⟨hbefore, hturn⟩
      rw [joined_append, waiting_append]
      rcases List.mem_append.mp ha with hearlier | hlast
      · rcases ih hbefore hearlier with ⟨completion, hpair⟩ | hwaiting
        · exact Or.inl ⟨completion, List.mem_append_left _ hpair⟩
        · by_cases hkey : e.key = a.key
          · -- The next event of the key is the completion of the request.
            rw [hkey, hwaiting] at hturn
            cases e with
            | request b =>
                simp [Event.asked?] at hturn
            | completion c =>
                left
                refine ⟨c.2, List.mem_append_right _ ?_⟩
                change c.1 = a.key at hkey
                simp [meets, hkey, hwaiting]
          · rw [if_neg hkey]
            exact Or.inr hwaiting
      · cases List.mem_singleton.mp hlast
        exact Or.inr (if_pos rfl)

/-! ## Kinds -/

/-- An execution answers the request to execute a kernel, and a copy the request
to copy memory. -/
def Asked.answeredBy (a : Asked) (completion : Completion) : Bool :=
  match a.request.kind, completion with
  | .executeKernel, .exec _ => true
  | .memoryCopy, .xfer _ => true
  | _, _ => false

theorem isSome_activityOf {t : ThreadName} {pair : Asked × Completion} :
    (activityOf t pair).isSome ↔
      pair.1.thread = t ∧ pair.1.answeredBy pair.2 = true := by
  rcases pair with ⟨a, completion⟩
  unfold activityOf Asked.answeredBy
  by_cases ht : a.thread = t
  · cases hkind : a.request.kind with
    | memoryCopy =>
        cases completion <;> simp [ht, hkind]
    | executeKernel =>
        cases completion <;> simp [ht, hkind]
  · simp [ht]

namespace PerformanceData

/-! ## The invariant -/

structure Traced (events : List Event) (p : PerformanceData) : Prop where
  /-- A request waits and owns its key until its completion comes. -/
  waiting : ∀ key a, waiting events key = some a →
    p.owners.get? key = some a.thread ∧
      ∃ number, p.callSites[number]? = some a.frames ∧
        p.requests.get? key = some ⟨a.thread, a.request, number⟩
  /-- No completion comes before its request. -/
  parked : ∀ key, p.parked.get? key = none
  /-- The pairs are stored, and nothing else. -/
  stored : ∀ t, (p.activities t).Perm
    ((joined events).filterMap (activityOf t))

section Traced

variable {events : List Event} {p q : PerformanceData}

theorem traced_empty : Traced [] (∅ : PerformanceData) := by
  constructor
  · intro key a h
    cases h
  · intro key
    rfl
  · intro t
    exact List.Perm.refl []

theorem Traced.congr (h : Traced events p)
    (hsites : q.callSites = p.callSites) (howners : q.owners = p.owners)
    (hrequests : q.requests = p.requests) (hparked : q.parked = p.parked)
    (hstored : ∀ t, q.activities t = p.activities t) : Traced events q := by
  constructor
  · rw [hsites, howners, hrequests]
    exact h.waiting
  · rw [hparked]
    exact h.parked
  · intro t
    rw [hstored]
    exact h.stored t

theorem Traced.request_waits (h : Traced events p) {a : Asked} {number : Nat}
    (hsites : p.callSites <+: q.callSites)
    (hsite : q.callSites[number]? = some a.frames)
    (howners : q.owners = p.owners.insert a.key a.thread)
    (hrequests :
      q.requests = p.requests.insert a.key ⟨a.thread, a.request, number⟩)
    (hparked : q.parked = p.parked) (hthreads : q.threads = p.threads) :
    Traced (events ++ [.request a]) q := by
  constructor
  · intro key b hwaiting
    rw [waiting_append_request] at hwaiting
    rw [howners, hrequests, OrderedMap.get?_insert, OrderedMap.get?_insert]
    by_cases hkey : key = a.key
    · rw [if_pos hkey] at hwaiting
      cases hwaiting
      rw [if_pos hkey, if_pos hkey]
      exact ⟨rfl, number, hsite, rfl⟩
    · rw [if_neg hkey] at hwaiting
      rcases h.waiting key b hwaiting with ⟨howner, place, htrace, hget⟩
      rw [if_neg hkey, if_neg hkey]
      exact ⟨howner, place, getElem?_of_prefix hsites htrace, hget⟩
  · rw [hparked]
    exact h.parked
  · intro t
    rw [joined_append, activities_of_threads_eq hsites hthreads
      (frames_of_stored (h.stored t))]
    simpa [meets] using h.stored t

/-- A request never meets a completion, since none is parked. -/
theorem Traced.enqueue (h : Traced events p) (a : Asked) :
    Traced (events ++ [.request a])
      (p.enqueue a.thread a.frames a.request) := by
  rcases p.enqueue_eq a.thread a.frames a.request with
    ⟨sites, number, hsites, hsite, heq⟩
  rw [heq, h.parked]
  exact h.request_waits hsites hsite rfl rfl rfl rfl

theorem Traced.complete (h : Traced events p) {a : Asked}
    {c : RequestKey × Completion}
    (hwaiting : Cuda.waiting events c.1 = some a) :
    Traced (events ++ [.completion c]) (p.complete c.1 c.2) := by
  rcases h.waiting c.1 a hwaiting with ⟨_, number, hsite, hget⟩
  unfold PerformanceData.complete
  rw [hget]
  change Traced (events ++ [.completion c])
    (join { p with requests := p.requests.erase c.1 }
      ⟨a.thread, a.request, number⟩ c.2)
  constructor
  · intro key b hother
    rw [waiting_append_completion] at hother
    by_cases hkey : key = c.1
    · rw [if_pos hkey] at hother
      cases hother
    · rw [if_neg hkey] at hother
      simp only [owners_join, callSites_join, requests_join,
        OrderedMap.get?_erase, if_neg hkey]
      exact h.waiting key b hother
  · intro key
    rw [parked_join]
    exact h.parked key
  · intro t
    rw [joined_append]
    have hjoin := activities_join
      (p := { p with requests := p.requests.erase c.1 }) hsite c.2 t
    apply perm_stored_append (h.stored t) _ hjoin
    simp [meets, hwaiting]

theorem Traced.step {name : ThreadName} {d : Data} {record : Record}
    (h : Traced events p) (htells : Tells name d p record q)
    (hturns : Alternating (events ++ (eventOf name d record).toList)) :
    Traced (events ++ (eventOf name d record).toList) q := by
  cases htells with
  | @request r trace htrace =>
      have hevent : eventOf name d (.request r) =
          some (.request ⟨name, trace, r⟩) := by
        simp [eventOf, Record.completion?, askedBy, Record.request?, htrace]
      rw [hevent]
      exact h.enqueue ⟨name, trace, r⟩
  | @completion _ key completion hrecord =>
      have hevent : eventOf name d record =
          some (.completion (key, completion)) := by
        simp [eventOf, hrecord]
      rw [hevent] at hturns ⊢
      have hturn := hturns.of_append.2
      cases hwaiting : Cuda.waiting events key with
      | none =>
          have hrequest := hturn.mpr hwaiting
          cases hrequest
      | some a =>
          exact h.complete hwaiting
  | other hrequest hrecord hsampled =>
      have hevent : eventOf name d record = none := by
        simp [eventOf, hrecord, askedBy, hrequest]
      rw [hevent, Option.toList_none, List.append_nil]
      apply h.congr hsampled.callSites hsampled.owners hsampled.requests
        hsampled.parked
      intro t
      exact hsampled.activities_eq (frames_of_stored (h.stored t))

end Traced

theorem traced_receive (arrivals : List Blob)
    (h : Alternating (events (accepted ∅ arrivals))) :
    Traced (events (accepted ∅ arrivals)) (receive ∅ arrivals) := by
  revert h
  apply run_induction (motive := fun reports p =>
    Alternating (events reports) → Traced (events reports) p)
  · intro _
    exact traced_empty
  · intro reports p blob stackTraces ih
    have hsame : events (reports ++ [⟨blob, ⟨[], stackTraces⟩⟩]) =
        events reports := by
      simp [events]
    rw [hsame]
    intro hturns
    exact (ih hturns).congr rfl rfl rfl rfl (p.activities_keep blob)
  · intro reports blob d p record q htells ih
    rw [events_push]
    intro hturns
    have hbefore : Alternating (events (reports ++ [⟨blob, d⟩])) := by
      cases hevent : eventOf blob.thread d record with
      | none =>
          simpa [hevent] using hturns
      | some e =>
          rw [hevent] at hturns
          exact hturns.of_append.1
    exact (ih hbefore).step htells hturns

/-! ## Completions shown -/

def completionsShown (p : PerformanceData) (t : ThreadName) :
    Except Error (List (RequestKey × Completion)) := do
  let blobs ← p.reshuffled t
  let ds ← blobs.mapM Data.ofBlob
  return (ds.flatMap Data.records).filterMap Record.completion?

theorem completionKey?_eq (r : Record) :
    r.completionKey? = r.completion?.map Prod.fst := by
  cases r <;> rfl

theorem completed_eq_told (reports : List Report) :
    completed reports =
      (told reports).filterMap fun e => e.2.completion? := by
  rw [completed_eq, ← map_snd_told, List.filterMap_map]
  rfl

theorem filterMap_destination {reports : List Report}
    (howned : ∀ c ∈ completed reports, ∃ t,
      lastRequester reports c.1 = some t) (t : ThreadName) :
    (((told reports).filter fun e => destination reports e = t).map
        Prod.snd).filterMap Record.completion? =
      (completed reports).filter fun c =>
        lastRequester reports c.1 = some t := by
  rw [completed_eq_told, List.filterMap_map, List.filterMap_filter,
    List.filter_filterMap]
  apply List.filterMap_congr
  intro e he
  unfold destination
  rw [completionKey?_eq]
  cases hrecord : e.2.completion? with
  | none =>
      simp [hrecord]
  | some c =>
      have hmem : c ∈ completed reports := by
        rw [completed_eq_told]
        exact List.mem_filterMap.mpr ⟨e, he, hrecord⟩
      rcases howned c hmem with ⟨owner, howner⟩
      simp [hrecord, howner, Option.filter]

/-- How completions are stored and shown if they take turns with requests. -/
structure Attributed (arrivals : List Blob)
    (shown : ThreadName → List (RequestKey × Completion)) : Prop where
  /-- The visit of a thread ends well, and its blobs can be read. -/
  readable : ∀ t, (receive ∅ arrivals).completionsShown t = .ok (shown t)
  /-- Every completion is joined with a request. -/
  answered : (joined (events (accepted ∅ arrivals))).map answer =
    completed (accepted ∅ arrivals)
  /-- What is stored for a thread are the pairs of its requests. -/
  stored : ∀ t, ((receive ∅ arrivals).activities t).Perm
    ((joined (events (accepted ∅ arrivals))).filterMap (activityOf t))
  /-- What is shown under a thread are the completions of the keys that it
  requested last. -/
  owned : ∀ t, (shown t).Perm
    ((completed (accepted ∅ arrivals)).filter fun c =>
      lastRequester (accepted ∅ arrivals) c.1 = some t)

section Attributed

variable {arrivals : List Blob}

theorem exists_owner (h : Alternating (events (accepted ∅ arrivals))) :
    ∀ c ∈ completed (accepted ∅ arrivals), ∃ t,
      lastRequester (accepted ∅ arrivals) c.1 = some t := by
  intro c hc
  rw [← filterMap_completed?_events, ← map_answer_joined h] at hc
  rcases List.mem_map.mp hc with ⟨pair, hpair, rfl⟩
  exact exists_lastRequester (mem_asked_of_mem_joined hpair)

theorem exists_attributed (hmemory : (receive ∅ arrivals).InMemory)
    (hturns : Alternating (events (accepted ∅ arrivals))) :
    ∃ shown, Attributed arrivals shown := by
  have hshown : ∀ t, ∃ completions,
      (receive ∅ arrivals).completionsShown t = .ok completions ∧
        completions.Perm ((completed (accepted ∅ arrivals)).filter fun c =>
          lastRequester (accepted ∅ arrivals) c.1 = some t) := by
    intro t
    rcases reshuffled_records hmemory t with ⟨blobs, ds, hblobs, hds, hperm⟩
    refine ⟨(ds.flatMap Data.records).filterMap Record.completion?, ?_, ?_⟩
    · unfold completionsShown
      rw [hblobs]
      change (blobs.mapM Data.ofBlob >>= _) = _
      rw [hds]
      rfl
    · rw [← filterMap_destination (exists_owner hturns)]
      exact hperm.filterMap _
  choose shown hreadable howned using hshown
  refine ⟨shown, hreadable, ?_, (traced_receive arrivals hturns).stored, howned⟩
  rw [map_answer_joined hturns, filterMap_completed?_events]

theorem Attributed.mem_iff {shown : ThreadName → List (RequestKey × Completion)}
    (h : Attributed arrivals shown) {pair : Asked × Completion}
    (hpair : pair ∈ joined (events (accepted ∅ arrivals))) (t : ThreadName) :
    answer pair ∈ shown t ↔
      lastRequester (accepted ∅ arrivals) pair.1.key = some t := by
  have hmem : answer pair ∈ completed (accepted ∅ arrivals) := by
    rw [← h.answered]
    exact List.mem_map_of_mem hpair
  rw [(h.owned t).mem_iff, List.mem_filter, decide_eq_true_iff]
  exact and_iff_right hmem

theorem lastRequester_of_waiting
    (hturns : Alternating (events (accepted ∅ arrivals))) {a : Asked}
    (h : waiting (events (accepted ∅ arrivals)) a.key = some a) :
    lastRequester (accepted ∅ arrivals) a.key = some a.thread := by
  rw [← owners_receive]
  exact ((traced_receive arrivals hturns).waiting a.key a h).1

end Attributed

/-- If requests and completions of every key take turns, and their kinds match,
then every completion is stored for the thread of the request right before it,
and shown under the thread of the latest request of its key. All of them are
shown under the threads that they are stored for exactly if no two threads make
requests of one key. -/
theorem shown_where_stored_iff (arrivals : List Blob)
    (hmemory : (receive ∅ arrivals).InMemory)
    (hturns : Alternating (events (accepted ∅ arrivals)))
    (hkinds : ∀ pair ∈ joined (events (accepted ∅ arrivals)),
      pair.1.answeredBy pair.2 = true) :
    ∃ shown, Attributed arrivals shown ∧
      ((∀ t, ∀ pair ∈ joined (events (accepted ∅ arrivals)),
          (activityOf t pair).isSome → answer pair ∈ shown t) ↔
        Unshared (asked (accepted ∅ arrivals))) := by
  rcases exists_attributed hmemory hturns with ⟨shown, hshown⟩
  refine ⟨shown, hshown, ?_⟩
  constructor
  · intro hagree
    have howned : ∀ a ∈ asked (accepted ∅ arrivals),
        lastRequester (accepted ∅ arrivals) a.key = some a.thread := by
      intro a ha
      rcases joined_or_waiting hturns (mem_events.mpr ha) with
        ⟨completion, hpair⟩ | hwaiting
      · have hstored := isSome_activityOf.mpr ⟨rfl, hkinds _ hpair⟩
        exact (hshown.mem_iff hpair a.thread).mp
          (hagree a.thread _ hpair hstored)
      · exact lastRequester_of_waiting hturns hwaiting
    intro a ha b hb hkey
    have hsame := howned b hb
    rw [← hkey, howned a ha] at hsame
    exact Option.some.inj hsame
  · intro hunshared t pair hpair hstored
    rw [hshown.mem_iff hpair, lastRequester_eq_some_iff hunshared]
    exact ⟨pair.1, mem_asked_of_mem_joined hpair, rfl,
      (isSome_activityOf.mp hstored).1⟩

def passedOn : List Blob :=
  let header (pid : UInt64) : BlobHeader :=
    ⟨0, 0, collectorId, .ofName ⟨"a", pid, none, none⟩, ⟨0, 1⟩⟩
  [Data.toBlob ⟨[.request ⟨.executeKernel, 10, 1, 2, 3, 0⟩,
      .completedExec ⟨1, 2, 3, 20, 30, "f", ⟨1, 1, 1⟩, ⟨8, 8, 1⟩, .none, 16, 0,
        0, 0⟩], [7, 8, 0]⟩ (header 1),
    Data.toBlob ⟨[.request ⟨.executeKernel, 40, 1, 2, 3, 0⟩], [9, 0]⟩
      (header 2)]

theorem shown_where_stored_iff_passed_on :
    (receive ∅ passedOn).InMemory ∧
    Alternating (events (accepted ∅ passedOn)) ∧
    (∀ pair ∈ joined (events (accepted ∅ passedOn)),
      pair.1.answeredBy pair.2 = true) ∧
    ∃ shown, Attributed passedOn shown ∧
      ¬∀ t, ∀ pair ∈ joined (events (accepted ∅ passedOn)),
        (activityOf t pair).isSome → answer pair ∈ shown t := by
  have hmemory : (receive ∅ passedOn).InMemory := by
    unfold InMemory
    decide +kernel
  have hturns : Alternating (events (accepted ∅ passedOn)) := by
    decide +kernel
  have hkinds : ∀ pair ∈ joined (events (accepted ∅ passedOn)),
      pair.1.answeredBy pair.2 = true := by
    decide +kernel
  refine ⟨hmemory, hturns, hkinds, ?_⟩
  rcases shown_where_stored_iff passedOn hmemory hturns hkinds with
    ⟨shown, hshown, hagree⟩
  refine ⟨shown, hshown, ?_⟩
  rw [hagree]
  decide +kernel

/-- The kernel is stored for the thread that launched it, and its completion is
shown under the other one. -/
theorem completion_passed_on :
    (accepted ∅ passedOn).length = passedOn.length ∧
    Alternating (events (accepted ∅ passedOn)) ∧
    (∀ pair ∈ joined (events (accepted ∅ passedOn)),
      pair.1.answeredBy pair.2 = true) ∧
    ((receive ∅ passedOn).thread ⟨"a", 1, none, none⟩).kernels.map
        (fun k => (k.completion.key, Completion.exec k.completion)) =
      completed (accepted ∅ passedOn) ∧
    (receive ∅ passedOn).completionsShown ⟨"a", 1, none, none⟩ = .ok [] ∧
    (receive ∅ passedOn).completionsShown ⟨"a", 2, none, none⟩ =
      .ok (completed (accepted ∅ passedOn)) := by
  decide +kernel

end PerformanceData

end Cuda
end CudaProfile
