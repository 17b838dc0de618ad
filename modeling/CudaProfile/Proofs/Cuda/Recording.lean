import CudaProfile.Proofs.Cuda.Meeting
/-!
# What is recorded of meetings

The data are a function of what came in. Stored are the activities of the
meetings, in the order in which they happened, and the call site of each is the
number of its own frames among the distinct stack traces of all requests. The
invariant also says which requests and completions wait: a request waits with
its number, which it keeps when further traces are numbered.
-/

namespace CudaProfile
namespace Cuda

open Std Lexicographic

/-! ## Distinct items -/

section Distinct

variable {α : Type} [BEq α] [LawfulBEq α]

def withItem (items : List α) (a : α) : List α :=
  if a ∈ items then items else items ++ [a]

theorem eraseDups_concat (items : List α) (a : α) :
    (items ++ [a]).eraseDups = withItem items.eraseDups a := by
  rw [List.eraseDups_append]
  unfold withItem
  by_cases h : a ∈ items
  · simp [List.removeAll, h]
  · simp [List.removeAll, h, List.eraseDups_cons]

theorem prefix_withItem (items : List α) (a : α) :
    items <+: withItem items a := by
  unfold withItem
  split
  · exact List.prefix_refl items
  · exact List.prefix_append items [a]

theorem nodup_eraseDups (items : List α) : items.eraseDups.Nodup := by
  induction items using List.reverseRecOn with
  | nil =>
      exact List.nodup_nil
  | append_singleton before a ih =>
      rw [eraseDups_concat]
      unfold withItem
      split
      · exact ih
      · next h =>
        exact List.nodup_append.mpr ⟨ih, List.nodup_singleton a, by
          intro b hb c hc heq
          rw [heq, List.mem_singleton.mp hc] at hb
          exact h hb⟩

theorem idxOf_extended {items more : List α} (h : items <+: more) {a : α}
    (ha : a ∈ items) : more.idxOf a = items.idxOf a := by
  rcases h with ⟨later, rfl⟩
  exact List.idxOf_append_of_mem ha

end Distinct

/-! ## Call sites and activities -/

/-- The distinct stack traces of the requests, in the order in which they came
up first. -/
def sitesOf (history : List Notice) : List (List Address) :=
  ((history.filterMap fun n => n.event?.bind Event.asked?).map
    Asked.frames).eraseDups

theorem sitesOf_concat_request (history : List Notice) (a : Asked) :
    sitesOf (history ++ [.event (.request a)]) =
      withItem (sitesOf history) a.frames := by
  unfold sitesOf
  rw [List.filterMap_append, List.map_append]
  exact eraseDups_concat _ _

theorem sitesOf_concat_of_asked?_eq_none {n : Notice}
    (h : n.event?.bind Event.asked? = none) (history : List Notice) :
    sitesOf (history ++ [n]) = sitesOf history := by
  unfold sitesOf
  simp [List.filterMap_append, h]

theorem prefix_sitesOf_concat (history : List Notice) (n : Notice) :
    sitesOf history <+: sitesOf (history ++ [n]) := by
  cases h : n.event?.bind Event.asked? with
  | none =>
      rw [sitesOf_concat_of_asked?_eq_none h]
  | some a =>
      cases n with
      | context info =>
          cases h
      | event e =>
          cases e with
          | request b =>
              rw [sitesOf_concat_request]
              exact prefix_withItem _ _
          | completion c =>
              cases h

theorem prefix_sitesOf_append (history later : List Notice) :
    sitesOf history <+: sitesOf (history ++ later) := by
  induction later using List.reverseRecOn with
  | nil =>
      rw [List.append_nil]
  | append_singleton before n ih =>
      rw [← List.append_assoc]
      exact ih.trans (prefix_sitesOf_concat _ n)

theorem frames_mem_sitesOf {history : List Notice} {a : Asked}
    (h : Notice.event (.request a) ∈ history) : a.frames ∈ sitesOf history := by
  unfold sitesOf
  rw [List.mem_eraseDups]
  exact List.mem_map_of_mem (List.mem_filterMap.mpr ⟨_, h, rfl⟩)

def Asked.pending (sites : List (List Address)) (a : Asked) : Pending :=
  ⟨a.thread, a.request, sites.idxOf a.frames⟩

namespace Meeting

def kernel? (sites : List (List Address)) (t : ThreadName) (m : Meeting) :
    Option KernelExecution :=
  match m.asked.request.kind, m.completion with
  | .executeKernel, .exec e =>
      if m.asked.thread = t then
        some ((m.asked.pending sites).execution m.device e)
      else none
  | _, _ => none

def transfer? (sites : List (List Address)) (t : ThreadName) (m : Meeting) :
    Option DataTransfer :=
  match m.asked.request.kind, m.completion with
  | .memoryCopy, .xfer x =>
      if m.asked.thread = t then
        some ((m.asked.pending sites).transfer m.device x)
      else none
  | _, _ => none

end Meeting

section Numbers

variable {sites more : List (List Address)}

theorem pending_extended (h : sites <+: more) {a : Asked}
    (ha : a.frames ∈ sites) : a.pending more = a.pending sites := by
  unfold Asked.pending
  rw [idxOf_extended h ha]

theorem kernel?_extended (h : sites <+: more) {m : Meeting}
    (hm : m.asked.frames ∈ sites) (t : ThreadName) :
    m.kernel? more t = m.kernel? sites t := by
  unfold Meeting.kernel?
  rw [pending_extended h hm]

theorem transfer?_extended (h : sites <+: more) {m : Meeting}
    (hm : m.asked.frames ∈ sites) (t : ThreadName) :
    m.transfer? more t = m.transfer? sites t := by
  unfold Meeting.transfer?
  rw [pending_extended h hm]

end Numbers

theorem frames_of_mem_meetings {history : List Notice} {m : Meeting}
    (h : m ∈ meetings history) : m.asked.frames ∈ sitesOf history :=
  frames_mem_sitesOf (mem_of_mem_meetings h).1

namespace PerformanceData

theorem internCallSite_eq_idxOf (p : PerformanceData) (trace : List Address) :
    p.internCallSite trace =
      ({ p with callSites := withItem p.callSites trace },
        (withItem p.callSites trace).idxOf trace) := by
  have hsame : (fun known : List Address => decide (known = trace)) =
      fun known => known == trace := by
    funext known
    exact (beq_eq_decide known trace).symm
  unfold internCallSite withItem
  rw [hsame]
  split
  · next number hfound =>
    rcases List.findIdx?_eq_some_iff_findIdx_eq.mp hfound with ⟨hlt, hnumber⟩
    change p.callSites.idxOf trace = number at hnumber
    rw [← hnumber, List.idxOf_lt_length_iff] at hlt
    rw [if_pos hlt, hnumber]
  · next hnone =>
    have hnew : trace ∉ p.callSites := by
      intro hmem
      have hne := List.findIdx?_eq_none_iff.mp hnone trace hmem
      simp at hne
    rw [if_neg hnew, List.idxOf_append_of_notMem hnew]
    simp

theorem enqueue_eq_pending (p : PerformanceData) (a : Asked) :
    p.enqueue a.thread a.frames a.request =
      match p.parked.get? a.key with
      | some completion =>
          join
            { p with
              callSites := withItem p.callSites a.frames
              owners := p.owners.insert a.key a.thread
              parked := p.parked.erase a.key }
            (a.pending (withItem p.callSites a.frames)) completion
      | none =>
          { p with
            callSites := withItem p.callSites a.frames
            owners := p.owners.insert a.key a.thread
            requests := p.requests.insert a.key
              (a.pending (withItem p.callSites a.frames)) } := by
  unfold enqueue
  rw [internCallSite_eq_idxOf]
  rfl

theorem contexts_join (p : PerformanceData) (pending : Pending)
    (completion : Completion) :
    (p.join pending completion).contexts = p.contexts := by
  unfold join
  split <;> rfl

theorem Counts.contexts_eq {name : ThreadName} {d : Data}
    {p q : PerformanceData} {record : Record} (h : Counts name d p record q) :
    q.contexts =
      match record.context? with
      | some info => p.contexts.insert info.context info.device
      | none => p.contexts := by
  rcases h with ⟨hchecked, happlied⟩
  cases record with
  | contextInfo info =>
      cases happlied
      rfl
  | samplingConfig c =>
      cases happlied
      split <;> rfl
  | request r =>
      cases htrace : traceOf d r with
      | error error =>
          simp [check, htrace, Except.map] at hchecked
      | ok trace =>
          simp only [applyRecord, htrace, Except.map] at happlied
          cases happlied
          rw [p.enqueue_eq_pending ⟨name, trace, r⟩]
          split
          · exact contexts_join _ _ _
          · rfl
  | completedExec e =>
      cases happlied
      unfold complete
      split
      · exact contexts_join _ _ _
      · rfl
  | completedXfer x =>
      cases happlied
      unfold complete
      split
      · exact contexts_join _ _ _
      · rfl
  | overflowSamples s =>
      simp only [applyRecord, hchecked] at happlied
      cases happlied
      rfl
  | periodicSamples s =>
      simp only [applyRecord, hchecked] at happlied
      cases happlied
      rfl
  | _ =>
      cases happlied
      rfl

section Joining

variable (p : PerformanceData) (a : Asked) (completion : Completion)
  (sites : List (List Address)) (t : ThreadName)

theorem kernels_join :
    ((p.join (a.pending sites) completion).thread t).kernels =
      (p.thread t).kernels ++
        (Meeting.kernel? sites t ⟨a, completion,
          (p.contexts.get? a.request.context).getD 0⟩).toList := by
  unfold join Meeting.kernel? Asked.pending
  simp only
  split
  · simp only [thread_changeThread]
    split
    · next ht =>
      simp [ht]
    · simp
  · next e hkind =>
    simp only [thread_changeThread]
    by_cases ht : t = a.thread
    · simp [ht, hkind]
    · simp [ht, Ne.symm ht, hkind]
  · next e hkind =>
    simp [hkind]
  · simp

theorem transfers_join :
    ((p.join (a.pending sites) completion).thread t).transfers =
      (p.thread t).transfers ++
        (Meeting.transfer? sites t ⟨a, completion,
          (p.contexts.get? a.request.context).getD 0⟩).toList := by
  unfold join Meeting.transfer? Asked.pending
  simp only
  split
  · next x hkind =>
    simp only [thread_changeThread]
    by_cases ht : t = a.thread
    · simp [ht, hkind]
    · simp [ht, Ne.symm ht, hkind]
  · simp only [thread_changeThread]
    split
    · next ht =>
      simp [ht]
    · simp
  · simp
  · next x hkind =>
    simp [hkind]

end Joining

/-! ## The invariant -/

/-- How data relate to the notices so far. -/
structure Recorded (history : List Notice) (p : PerformanceData) : Prop where
  callSites : p.callSites = sitesOf history
  contexts : ∀ context, p.contexts.get? context = deviceOf? history context
  /-- A request waits with the number of its frames. -/
  requests : ∀ key, p.requests.get? key =
    ((unmet history key).bind Event.asked?).map (Asked.pending p.callSites)
  parked : ∀ key, p.parked.get? key =
    ((unmet history key).bind Event.completed?).map Prod.snd
  kernels : ∀ t, (p.thread t).kernels =
    (meetings history).filterMap (Meeting.kernel? p.callSites t)
  transfers : ∀ t, (p.thread t).transfers =
    (meetings history).filterMap (Meeting.transfer? p.callSites t)

section Recorded

variable {history : List Notice} {p q : PerformanceData}

theorem recorded_empty : Recorded [] (∅ : PerformanceData) := by
  constructor
  · rfl
  · intro context
    rfl
  · intro key
    rfl
  · intro key
    rfl
  · intro t
    rfl
  · intro t
    rfl

theorem Recorded.grow (h : Recorded history p)
    {sites : List (List Address)} (hsites : p.callSites <+: sites) :
    (∀ key, p.requests.get? key =
      ((unmet history key).bind Event.asked?).map (Asked.pending sites)) ∧
    (∀ t, (p.thread t).kernels =
      (meetings history).filterMap (Meeting.kernel? sites t)) ∧
    ∀ t, (p.thread t).transfers =
      (meetings history).filterMap (Meeting.transfer? sites t) := by
  refine ⟨?_, ?_, ?_⟩
  · intro key
    rw [h.requests]
    cases hunmet : unmet history key with
    | none =>
        rfl
    | some e =>
        cases e with
        | completion c =>
            rfl
        | request a =>
            have hframes := frames_mem_sitesOf (mem_of_unmet hunmet).1
            rw [← h.callSites] at hframes
            exact congrArg some (pending_extended hsites hframes).symm
  · intro t
    rw [h.kernels]
    apply List.filterMap_congr
    intro m hm
    have hframes := frames_of_mem_meetings hm
    rw [← h.callSites] at hframes
    exact (kernel?_extended hsites hframes t).symm
  · intro t
    rw [h.transfers]
    apply List.filterMap_congr
    intro m hm
    have hframes := frames_of_mem_meetings hm
    rw [← h.callSites] at hframes
    exact (transfer?_extended hsites hframes t).symm

theorem Recorded.congr (h : Recorded history p)
    (hsites : q.callSites = p.callSites) (hcontexts : q.contexts = p.contexts)
    (hrequests : q.requests = p.requests) (hparked : q.parked = p.parked)
    (hkernels : ∀ t, (q.thread t).kernels = (p.thread t).kernels)
    (htransfers : ∀ t, (q.thread t).transfers = (p.thread t).transfers) :
    Recorded history q := by
  constructor
  · rw [hsites]
    exact h.callSites
  · rw [hcontexts]
    exact h.contexts
  · rw [hsites, hrequests]
    exact h.requests
  · rw [hparked]
    exact h.parked
  · intro t
    rw [hkernels, hsites]
    exact h.kernels t
  · intro t
    rw [htransfers, hsites]
    exact h.transfers t

/-- A further request or completion: something is left under its key, and what
it meets is stored. -/
theorem Recorded.event (h : Recorded history p) {e : Event}
    {left : Option Event} {new : Option Meeting}
    (hleft : unmetAfter (unmet history e.key) e = left)
    (hnew : meeting? history (.event e) = new)
    (hsites : q.callSites = sitesOf (history ++ [.event e]))
    (hcontexts : q.contexts = p.contexts)
    (hrequests : ∀ key, q.requests.get? key =
      if key = e.key then
        (left.bind Event.asked?).map (Asked.pending q.callSites)
      else p.requests.get? key)
    (hparked : ∀ key, q.parked.get? key =
      if key = e.key then (left.bind Event.completed?).map Prod.snd
      else p.parked.get? key)
    (hkernels : ∀ t, (q.thread t).kernels = (p.thread t).kernels ++
      (new.bind (Meeting.kernel? q.callSites t)).toList)
    (htransfers : ∀ t, (q.thread t).transfers = (p.thread t).transfers ++
      (new.bind (Meeting.transfer? q.callSites t)).toList) :
    Recorded (history ++ [.event e]) q := by
  -- Numbers given before stay, and with them what was stored before.
  have hprefix : p.callSites <+: q.callSites := by
    rw [h.callSites, hsites]
    exact prefix_sitesOf_concat history _
  rcases h.grow hprefix with ⟨hwaiting, hkernelsBefore, htransfersBefore⟩
  have hunmet : ∀ key, unmet (history ++ [.event e]) key =
      if key = e.key then left else unmet history key := by
    intro key
    rw [unmet_concat_event]
    by_cases hkey : key = e.key
    · rw [if_pos hkey, if_pos hkey.symm, hkey, hleft]
    · rw [if_neg hkey, if_neg (Ne.symm hkey)]
  constructor
  · exact hsites
  · intro context
    rw [hcontexts, deviceOf?_concat]
    exact h.contexts context
  · intro key
    rw [hrequests, hunmet, hwaiting]
    split <;> rfl
  · intro key
    rw [hparked, hunmet, h.parked]
    split <;> rfl
  · intro t
    rw [hkernels, hkernelsBefore, meetings_concat, List.filterMap_append,
      filterMap_toList, hnew]
  · intro t
    rw [htransfers, htransfersBefore, meetings_concat, List.filterMap_append,
      filterMap_toList, hnew]

theorem meeting?_of_met? (h : Recorded history p) {e : Event} {a : Asked}
    {completion : Completion}
    (hmet : met? (unmet history e.key) e = some (a, completion)) :
    meeting? history (.event e) =
      some ⟨a, completion, (p.contexts.get? a.request.context).getD 0⟩ := by
  rw [h.contexts]
  exact congrArg (Option.map _) hmet

theorem meeting?_of_met?_eq_none {e : Event}
    (hmet : met? (unmet history e.key) e = none) :
    meeting? history (.event e) = none :=
  congrArg (Option.map _) hmet

theorem Recorded.request_waits (h : Recorded history p) {a : Asked}
    {sites : List (List Address)}
    (hsites : sites = sitesOf (history ++ [.event (.request a)]))
    (hnone : (unmet history (Event.request a).key).bind Event.completed? =
      none) :
    Recorded (history ++ [.event (.request a)])
      { p with
        callSites := sites
        owners := p.owners.insert a.key a.thread
        requests := p.requests.insert a.key (a.pending sites) } := by
  rcases Cuda.request_waits hnone a with ⟨hleft, hmet⟩
  apply h.event hleft (meeting?_of_met?_eq_none hmet)
  · exact hsites
  · rfl
  · intro key
    exact OrderedMap.get?_insert _ _ _ _
  · intro key
    split
    · next hkey =>
      rw [hkey]
      exact (h.parked a.key).trans (congrArg (Option.map Prod.snd) hnone)
    · rfl
  · intro t
    exact (List.append_nil _).symm
  · intro t
    exact (List.append_nil _).symm

theorem Recorded.request_met (h : Recorded history p) {a : Asked}
    {sites : List (List Address)}
    (hsites : sites = sitesOf (history ++ [.event (.request a)]))
    {c : RequestKey × Completion}
    (hwaits : unmet history (Event.request a).key = some (.completion c)) :
    Recorded (history ++ [.event (.request a)])
      (join
        { p with
          callSites := sites
          owners := p.owners.insert a.key a.thread
          parked := p.parked.erase a.key }
        (a.pending sites) c.2) := by
  have hleft : unmetAfter (unmet history (Event.request a).key)
      (.request a) = none := by
    rw [hwaits]
    rfl
  have hmet : met? (unmet history (Event.request a).key) (.request a) =
      some (a, c.2) := by
    rw [hwaits]
    rfl
  apply h.event hleft (meeting?_of_met? h hmet)
  · rw [callSites_join]
    exact hsites
  · exact contexts_join _ _ _
  · intro key
    rw [requests_join]
    split
    · next hkey =>
      rw [hkey, h.requests, hwaits]
      rfl
    · rfl
  · intro key
    rw [parked_join]
    exact OrderedMap.get?_erase _ _ _
  · intro t
    rw [callSites_join]
    exact kernels_join _ _ _ _ _
  · intro t
    rw [callSites_join]
    exact transfers_join _ _ _ _ _

theorem Recorded.enqueue (h : Recorded history p) (a : Asked) :
    Recorded (history ++ [.event (.request a)])
      (p.enqueue a.thread a.frames a.request) := by
  have hsites : withItem p.callSites a.frames =
      sitesOf (history ++ [.event (.request a)]) := by
    rw [h.callSites, sitesOf_concat_request]
  rw [enqueue_eq_pending, h.parked]
  cases hcompleted : (unmet history a.key).bind Event.completed? with
  | none =>
      exact h.request_waits hsites hcompleted
  | some c =>
      exact h.request_met hsites (eq_completion_of_bind hcompleted)

theorem Recorded.completion_waits (h : Recorded history p)
    {c : RequestKey × Completion}
    (hnone : (unmet history (Event.completion c).key).bind Event.asked? =
      none) :
    Recorded (history ++ [.event (.completion c)])
      { p with parked := p.parked.insert c.1 c.2 } := by
  rcases Cuda.completion_waits hnone c with ⟨hleft, hmet⟩
  apply h.event hleft (meeting?_of_met?_eq_none hmet)
  · rw [sitesOf_concat_of_asked?_eq_none rfl]
    exact h.callSites
  · rfl
  · intro key
    split
    · next hkey =>
      rw [hkey]
      exact (h.requests c.1).trans (congrArg (Option.map _) hnone)
    · rfl
  · intro key
    exact OrderedMap.get?_insert _ _ _ _
  · intro t
    exact (List.append_nil _).symm
  · intro t
    exact (List.append_nil _).symm

theorem Recorded.completion_met (h : Recorded history p)
    {c : RequestKey × Completion} {a : Asked}
    (hwaits : unmet history (Event.completion c).key = some (.request a)) :
    Recorded (history ++ [.event (.completion c)])
      (join { p with requests := p.requests.erase c.1 }
        (a.pending p.callSites) c.2) := by
  have hleft : unmetAfter (unmet history (Event.completion c).key)
      (.completion c) = none := by
    rw [hwaits]
    rfl
  have hmet : met? (unmet history (Event.completion c).key) (.completion c) =
      some (a, c.2) := by
    rw [hwaits]
    rfl
  apply h.event hleft (meeting?_of_met? h hmet)
  · rw [callSites_join, sitesOf_concat_of_asked?_eq_none rfl]
    exact h.callSites
  · exact contexts_join _ _ _
  · intro key
    rw [requests_join]
    exact OrderedMap.get?_erase _ _ _
  · intro key
    rw [parked_join]
    split
    · next hkey =>
      rw [hkey, h.parked, hwaits]
      rfl
    · rfl
  · intro t
    rw [callSites_join]
    exact kernels_join _ _ _ _ _
  · intro t
    rw [callSites_join]
    exact transfers_join _ _ _ _ _

theorem Recorded.complete (h : Recorded history p)
    (c : RequestKey × Completion) :
    Recorded (history ++ [.event (.completion c)]) (p.complete c.1 c.2) := by
  unfold PerformanceData.complete
  rw [h.requests]
  cases hasked : (unmet history c.1).bind Event.asked? with
  | none =>
      exact h.completion_waits hasked
  | some a =>
      exact h.completion_met (eq_request_of_bind hasked)

theorem Recorded.context (h : Recorded history p) {info : ContextInfo}
    (hcontexts : q.contexts = p.contexts.insert info.context info.device)
    (hsites : q.callSites = p.callSites) (hrequests : q.requests = p.requests)
    (hparked : q.parked = p.parked)
    (hkernels : ∀ t, (q.thread t).kernels = (p.thread t).kernels)
    (htransfers : ∀ t, (q.thread t).transfers = (p.thread t).transfers) :
    Recorded (history ++ [.context info]) q := by
  have hmeetings : meetings (history ++ [.context info]) =
      meetings history := by
    rw [meetings_concat]
    exact List.append_nil _
  constructor
  · rw [hsites, sitesOf_concat_of_asked?_eq_none rfl]
    exact h.callSites
  · intro context
    rw [hcontexts, OrderedMap.get?_insert, deviceOf?_concat, h.contexts]
    by_cases hcontext : context = info.context
    · simp [Notice.deviceOf?, Notice.context?, Option.filter, hcontext]
    · simp [Notice.deviceOf?, Notice.context?, Option.filter, hcontext,
        Ne.symm hcontext]
  · intro key
    rw [hrequests, hsites, unmet_concat_context]
    exact h.requests key
  · intro key
    rw [hparked, unmet_concat_context]
    exact h.parked key
  · intro t
    rw [hkernels, hsites, hmeetings]
    exact h.kernels t
  · intro t
    rw [htransfers, hsites, hmeetings]
    exact h.transfers t

theorem Recorded.step {name : ThreadName} {d : Data} {record : Record}
    (h : Recorded history p) (hcounts : Counts name d p record q) :
    Recorded (history ++ (noticeOf name d record).toList) q := by
  have hcontexts := hcounts.contexts_eq
  cases hcounts.tells with
  | @request r trace htrace =>
      have hnotice : noticeOf name d (.request r) =
          some (.event (.request ⟨name, trace, r⟩)) := by
        simp [noticeOf, Record.context?, eventOf, Record.completion?, askedBy,
          Record.request?, htrace]
      rw [hnotice]
      exact h.enqueue ⟨name, trace, r⟩
  | @completion _ key completion hrecord =>
      have hnotice : noticeOf name d record =
          some (.event (.completion (key, completion))) := by
        have hevent : eventOf name d record =
            some (.completion (key, completion)) := by
          simp [eventOf, hrecord]
        unfold noticeOf
        split
        · next info hinfo =>
          rw [eventOf_of_context? hinfo] at hevent
          cases hevent
        · rw [hevent]
          rfl
      rw [hnotice]
      exact h.complete (key, completion)
  | other hrequest hrecord hsampled =>
      have hevent : eventOf name d record = none := by
        simp [eventOf, hrecord, askedBy, hrequest]
      unfold noticeOf
      split
      · next info hinfo =>
        rw [hinfo] at hcontexts
        exact h.context hcontexts hsampled.callSites hsampled.requests
          hsampled.parked hsampled.kernels hsampled.transfers
      · next hinfo =>
        rw [hinfo] at hcontexts
        rw [hevent, Option.map_none, Option.toList_none, List.append_nil]
        exact h.congr hsampled.callSites hcontexts hsampled.requests
          hsampled.parked hsampled.kernels hsampled.transfers

end Recorded

theorem recorded_receive (arrivals : List Blob) :
    Recorded (notices (accepted ∅ arrivals)) (receive ∅ arrivals) := by
  apply run_induction_of_counts (motive := fun reports p =>
    Recorded (notices reports) p)
  · exact recorded_empty
  · intro reports p blob stackTraces h
    have hsame : notices (reports ++ [⟨blob, ⟨[], stackTraces⟩⟩]) =
        notices reports := by
      simp [notices]
    rw [hsame]
    apply Recorded.congr (q := p.keep blob) h rfl rfl rfl rfl
    · intro t
      unfold keep
      rw [thread_changeThread]
      split
      · next ht =>
        rw [ht]
      · rfl
    · intro t
      unfold keep
      rw [thread_changeThread]
      split
      · next ht =>
        rw [ht]
      · rfl
  · intro reports blob d p record q hcounts h
    rw [notices_push]
    exact h.step hcounts

/-! ## Where stored activities come from -/

theorem exists_meeting_of_mem_kernels {arrivals : List Blob} {t : ThreadName}
    {k : KernelExecution} (hk : k ∈ ((receive ∅ arrivals).thread t).kernels) :
    ∃ m ∈ meetings (notices (accepted ∅ arrivals)),
      m.kernel? (receive ∅ arrivals).callSites t = some k ∧
        k.callSite = (receive ∅ arrivals).callSites.idxOf m.asked.frames ∧
        k.device = m.device := by
  rw [(recorded_receive arrivals).kernels] at hk
  rcases List.mem_filterMap.mp hk with ⟨m, hm, hkernel⟩
  refine ⟨m, hm, hkernel, ?_⟩
  unfold Meeting.kernel? at hkernel
  split at hkernel
  · rcases Option.ite_none_right_eq_some.mp hkernel with ⟨_, hsome⟩
    cases hsome
    exact ⟨rfl, rfl⟩
  · cases hkernel

theorem exists_meeting_of_mem_transfers {arrivals : List Blob} {t : ThreadName}
    {x : DataTransfer} (hx : x ∈ ((receive ∅ arrivals).thread t).transfers) :
    ∃ m ∈ meetings (notices (accepted ∅ arrivals)),
      m.transfer? (receive ∅ arrivals).callSites t = some x ∧
        x.callSite = (receive ∅ arrivals).callSites.idxOf m.asked.frames ∧
        x.device = m.device := by
  rw [(recorded_receive arrivals).transfers] at hx
  rcases List.mem_filterMap.mp hx with ⟨m, hm, htransfer⟩
  refine ⟨m, hm, htransfer, ?_⟩
  unfold Meeting.transfer? at htransfer
  split at htransfer
  · rcases Option.ite_none_right_eq_some.mp htransfer with ⟨_, hsome⟩
    cases hsome
    exact ⟨rfl, rfl⟩
  · cases htransfer

end PerformanceData
end Cuda
end CudaProfile
