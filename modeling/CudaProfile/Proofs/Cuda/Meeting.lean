import CudaProfile.Proofs.Cuda.Alternation
/-!
# Where requests and completions meet

Keys may be used in any way: requested again while a request waits, completed
twice, completed before they are requested. What came in tells for each key what
is left of it, and so which request and which completion meet, and which device
their context was said to have by then.
-/

namespace CudaProfile
namespace Cuda

open Std Lexicographic

/-! ## What comes in -/

def Record.context? : Record → Option ContextInfo
  | .contextInfo info => some info
  | _ => none

inductive Notice where
  | event (e : Event)
  | context (info : ContextInfo)
deriving DecidableEq

namespace Notice

def event? : Notice → Option Event
  | event e => some e
  | context _ => none

def context? : Notice → Option ContextInfo
  | event _ => none
  | context info => some info

def deviceOf? (context : UInt64) (n : Notice) : Option UInt32 :=
  (n.context?.filter fun info => info.context = context).map ContextInfo.device

end Notice

def noticeOf (t : ThreadName) (d : Data) (record : Record) : Option Notice :=
  match record.context? with
  | some info => some (.context info)
  | none => (eventOf t d record).map .event

def notices (reports : List Report) : List Notice :=
  reports.flatMap fun report =>
    report.data.records.filterMap (noticeOf report.thread report.data)

def contextsTold (reports : List Report) : List ContextInfo :=
  reports.flatMap fun report => report.data.records.filterMap Record.context?

theorem notices_append (reports more : List Report) :
    notices (reports ++ more) = notices reports ++ notices more :=
  List.flatMap_append

theorem notices_push (reports : List Report) (blob : Blob) (d : Data)
    (record : Record) :
    notices (reports ++ [⟨blob, d.push record⟩]) =
      notices (reports ++ [⟨blob, d⟩]) ++
        (noticeOf blob.thread d record).toList :=
  filterMap_records_push (f := fun report =>
    noticeOf report.thread report.data) reports blob d record rfl

theorem eventOf_of_context? {t : ThreadName} {d : Data} {record : Record}
    {info : ContextInfo} (h : record.context? = some info) :
    eventOf t d record = none := by
  cases record with
  | contextInfo =>
      rfl
  | _ =>
      cases h

theorem event?_noticeOf (t : ThreadName) (d : Data) (record : Record) :
    (noticeOf t d record).bind Notice.event? = eventOf t d record := by
  unfold noticeOf
  split
  · next info h =>
    rw [eventOf_of_context? h]
    rfl
  · cases eventOf t d record <;> rfl

theorem context?_noticeOf (t : ThreadName) (d : Data) (record : Record) :
    (noticeOf t d record).bind Notice.context? = record.context? := by
  unfold noticeOf
  split
  · next info h =>
    exact h.symm
  · next h =>
    rw [h]
    cases eventOf t d record <;> rfl

theorem filterMap_event?_notices (reports : List Report) :
    (notices reports).filterMap Notice.event? = events reports := by
  unfold notices events
  rw [List.filterMap_flatMap]
  apply List.flatMap_congr
  intro report _
  rw [List.filterMap_filterMap]
  simp only [event?_noticeOf]

theorem filterMap_context?_notices (reports : List Report) :
    (notices reports).filterMap Notice.context? = contextsTold reports := by
  unfold notices contextsTold
  rw [List.filterMap_flatMap]
  apply List.flatMap_congr
  intro report _
  rw [List.filterMap_filterMap]
  simp only [context?_noticeOf]

theorem mem_notices {reports : List Report} {a : Asked} :
    Notice.event (.request a) ∈ notices reports ↔ a ∈ asked reports := by
  rw [← mem_events, ← filterMap_event?_notices, List.mem_filterMap]
  constructor
  · intro h
    exact ⟨_, h, rfl⟩
  · intro h
    rcases h with ⟨n, hn, hevent⟩
    cases n with
    | event e =>
        cases hevent
        exact hn
    | context info =>
        cases hevent

theorem completed_of_mem_notices {reports : List Report}
    {c : RequestKey × Completion}
    (h : Notice.event (.completion c) ∈ notices reports) :
    c ∈ completed reports := by
  rw [← filterMap_completed?_events, ← filterMap_event?_notices]
  exact List.mem_filterMap.mpr ⟨_, List.mem_filterMap.mpr ⟨_, h, rfl⟩, rfl⟩

theorem filterMap_toList {α β : Type} (f : α → Option β) (a? : Option α) :
    a?.toList.filterMap f = (a?.bind f).toList := by
  cases a? with
  | none =>
      rfl
  | some a =>
      exact filterMap_singleton f a

/-! ## What is known of devices -/

def deviceOf? (history : List Notice) (context : UInt64) : Option UInt32 :=
  history.reverse.findSome? (Notice.deviceOf? context)

theorem deviceOf?_concat (history : List Notice) (n : Notice)
    (context : UInt64) :
    deviceOf? (history ++ [n]) context =
      (n.deviceOf? context).or (deviceOf? history context) := by
  unfold deviceOf?
  rw [List.reverse_append, List.findSome?_append, List.reverse_singleton,
    List.findSome?_singleton]

/-! ## What has not met -/

/-- What waits under a key after a further request or completion of it. A
request and a completion that meet leave nothing, and otherwise the latest of
them waits. -/
def unmetAfter : Option Event → Event → Option Event
  | some (.completion _), .request _ => none
  | some (.request _), .completion _ => none
  | _, e => some e

def met? : Option Event → Event → Option (Asked × Completion)
  | some (.completion c), .request a => some (a, c.2)
  | some (.request a), .completion c => some (a, c.2)
  | _, _ => none

section Waiting

variable {waiting : Option Event}

theorem eq_of_unmetAfter {e last : Event}
    (h : unmetAfter waiting e = some last) : last = e := by
  unfold unmetAfter at h
  split at h
  · cases h
  · cases h
  · cases h
    rfl

theorem eq_completion_of_bind {c : RequestKey × Completion}
    (h : waiting.bind Event.completed? = some c) :
    waiting = some (.completion c) := by
  rcases Option.bind_eq_some_iff.mp h with ⟨e, rfl, hcompleted⟩
  cases e with
  | request a =>
      cases hcompleted
  | completion c =>
      cases hcompleted
      rfl

theorem eq_request_of_bind {a : Asked}
    (h : waiting.bind Event.asked? = some a) : waiting = some (.request a) := by
  rcases Option.bind_eq_some_iff.mp h with ⟨e, rfl, hasked⟩
  cases e with
  | request a =>
      cases hasked
      rfl
  | completion c =>
      cases hasked

theorem request_waits (h : waiting.bind Event.completed? = none) (a : Asked) :
    unmetAfter waiting (.request a) = some (.request a) ∧
      met? waiting (.request a) = none := by
  cases waiting with
  | none =>
      exact ⟨rfl, rfl⟩
  | some e =>
      cases e with
      | request b =>
          exact ⟨rfl, rfl⟩
      | completion c =>
          cases h

theorem completion_waits (h : waiting.bind Event.asked? = none)
    (c : RequestKey × Completion) :
    unmetAfter waiting (.completion c) = some (.completion c) ∧
      met? waiting (.completion c) = none := by
  cases waiting with
  | none =>
      exact ⟨rfl, rfl⟩
  | some e =>
      cases e with
      | request b =>
          cases h
      | completion d =>
          exact ⟨rfl, rfl⟩

end Waiting

def unmet (history : List Notice) (key : RequestKey) : Option Event :=
  ((history.filterMap Notice.event?).filter fun e => e.key = key).foldl
    unmetAfter none

theorem unmet_concat_event (history : List Notice) (e : Event)
    (key : RequestKey) :
    unmet (history ++ [.event e]) key =
      if e.key = key then unmetAfter (unmet history key) e
      else unmet history key := by
  unfold unmet
  rw [List.filterMap_append, List.filter_append, List.foldl_append]
  by_cases h : e.key = key
  · simp [Notice.event?, h]
  · simp [Notice.event?, h]

theorem unmet_concat_context (history : List Notice) (info : ContextInfo)
    (key : RequestKey) :
    unmet (history ++ [.context info]) key = unmet history key := by
  unfold unmet
  rw [List.filterMap_append]
  exact congrArg _ (congrArg _ (List.append_nil _))

theorem mem_of_unmet {history : List Notice} {key : RequestKey} {e : Event}
    (h : unmet history key = some e) :
    Notice.event e ∈ history ∧ e.key = key := by
  induction history using List.reverseRecOn with
  | nil =>
      cases h
  | append_singleton before n ih =>
      cases n with
      | context info =>
          rw [unmet_concat_context] at h
          exact ⟨List.mem_append_left _ (ih h).1, (ih h).2⟩
      | event last =>
          rw [unmet_concat_event] at h
          split at h
          · next hkey =>
            rw [eq_of_unmetAfter h]
            exact ⟨List.mem_append_right _ (List.mem_singleton_self _), hkey⟩
          · exact ⟨List.mem_append_left _ (ih h).1, (ih h).2⟩

/-! ## Meetings -/

/-- A request and a completion that have met, and the device of the context by
then; zero stands for an unknown one. -/
structure Meeting where
  asked : Asked
  completion : Completion
  device : UInt32

def meeting? (before : List Notice) : Notice → Option Meeting
  | .event e =>
      (met? (unmet before e.key) e).map fun pair =>
        ⟨pair.1, pair.2, (deviceOf? before pair.1.request.context).getD 0⟩
  | .context _ => none

def meetingsAfter (before : List Notice) : List Notice → List Meeting
  | [] => []
  | n :: later =>
      (meeting? before n).toList ++ meetingsAfter (before ++ [n]) later

def meetings (history : List Notice) : List Meeting :=
  meetingsAfter [] history

theorem meetingsAfter_concat (before history : List Notice) (n : Notice) :
    meetingsAfter before (history ++ [n]) =
      meetingsAfter before history ++
        (meeting? (before ++ history) n).toList := by
  induction history generalizing before with
  | nil =>
      simp [meetingsAfter]
  | cons first rest ih =>
      rw [List.cons_append, meetingsAfter, ih, meetingsAfter, List.append_assoc,
        List.append_assoc]
      rfl

theorem meetings_concat (history : List Notice) (n : Notice) :
    meetings (history ++ [n]) =
      meetings history ++ (meeting? history n).toList :=
  meetingsAfter_concat [] history n

/-- A meeting takes place when the later one of its request and its completion
comes, while the other one waits. -/
inductive Meets (before : List Notice) (m : Meeting) : Event → Prop
  | request
      (hwaits :
        Notice.event (.completion (m.asked.key, m.completion)) ∈ before) :
      Meets before m (.request m.asked)
  | completion (hwaits : Notice.event (.request m.asked) ∈ before) :
      Meets before m (.completion (m.asked.key, m.completion))

theorem meets_of_meeting? {before : List Notice} {n : Notice} {m : Meeting}
    (h : meeting? before n = some m) :
    ∃ e, n = .event e ∧ Meets before m e ∧
      m.device = (deviceOf? before m.asked.request.context).getD 0 := by
  cases n with
  | context info =>
      cases h
  | event e =>
      rcases Option.map_eq_some_iff.mp h with ⟨pair, hpair, rfl⟩
      refine ⟨e, rfl, ?_, rfl⟩
      unfold met? at hpair
      split at hpair
      · next c a hwaits =>
        cases hpair
        rcases mem_of_unmet hwaits with ⟨hmem, hkey⟩
        rcases c with ⟨key, completion⟩
        cases hkey
        exact .request hmem
      · next a c hwaits =>
        cases hpair
        rcases mem_of_unmet hwaits with ⟨hmem, hkey⟩
        rcases c with ⟨key, completion⟩
        cases hkey
        exact .completion hmem
      · cases hpair

theorem exists_of_mem_meetings {history : List Notice} {m : Meeting}
    (h : m ∈ meetings history) :
    ∃ before e later, history = before ++ .event e :: later ∧
      Meets before m e ∧
      m.device = (deviceOf? before m.asked.request.context).getD 0 := by
  induction history using List.reverseRecOn with
  | nil =>
      cases h
  | append_singleton before n ih =>
      rw [meetings_concat] at h
      rcases List.mem_append.mp h with hearlier | hlast
      · rcases ih hearlier with ⟨first, e, later, rfl, hmeets⟩
        exact ⟨first, e, later ++ [n], by simp, hmeets⟩
      · rcases meets_of_meeting? (Option.mem_toList.mp hlast) with
          ⟨e, rfl, hmeets⟩
        exact ⟨before, e, [], rfl, hmeets⟩

theorem mem_of_mem_meetings {history : List Notice} {m : Meeting}
    (h : m ∈ meetings history) :
    Notice.event (.request m.asked) ∈ history ∧
      Notice.event (.completion (m.asked.key, m.completion)) ∈ history := by
  rcases exists_of_mem_meetings h with ⟨before, e, later, heq, hmeets, _⟩
  have hlast : Notice.event e ∈ history := by
    rw [heq]
    exact List.mem_append_right _ List.mem_cons_self
  have hbefore : ∀ n ∈ before, n ∈ history := by
    intro n hn
    rw [heq]
    exact List.mem_append_left _ hn
  cases hmeets with
  | request hwaits =>
      exact ⟨hlast, hbefore _ hwaits⟩
  | completion hwaits =>
      exact ⟨hbefore _ hwaits, hlast⟩

end Cuda
end CudaProfile
