import CudaProfile.Proofs.Cuda.Recording
/-!
# Call sites are faithful

Stack traces are numbered when a request brings them, and the numbers are used
when its completion is there, which may be much later. Until then other blobs
bring other traces, or the same ones in other pools. Every number still stands
for the frames that the request had in the pool of its own blob.
-/

namespace CudaProfile
namespace Cuda

open Std Lexicographic

/-- A request is one of a report, and its frames are those of the report's own
stack traces from the place on to which the request refers, up to the next
zero. -/
structure Asked.ComesFrom (a : Asked) (report : Report) : Prop where
  thread : report.thread = a.thread
  requested : .request a.request ∈ report.data.records
  inside : a.request.callSite.toNat ≤ report.data.stackTraces.length
  frames : a.frames = (report.data.stackTraces.drop
    a.request.callSite.toNat).takeWhile fun pc => pc ≠ 0

theorem stackTrace?_eq_some_iff {d : Data} {callSite : UInt32}
    {trace : List Address} :
    d.stackTrace? callSite = some trace ↔
      callSite.toNat ≤ d.stackTraces.length ∧
        trace = (d.stackTraces.drop callSite.toNat).takeWhile
          fun pc => pc ≠ 0 := by
  simp [Data.stackTrace?, eq_comm]

namespace PerformanceData

/-! ## Requests and their pools -/

theorem exists_stackTrace (arrivals : List Blob) :
    ∀ report ∈ accepted ∅ arrivals, ∀ r,
      .request r ∈ report.data.records →
        ∃ trace, report.data.stackTrace? r.callSite = some trace := by
  apply run_induction (motive := fun reports _ =>
    ∀ report ∈ reports, ∀ r, .request r ∈ report.data.records →
      ∃ trace, report.data.stackTrace? r.callSite = some trace)
  · intro report hreport
    cases hreport
  · intro reports p blob stackTraces h report hreport r hr
    rcases List.mem_append.mp hreport with hearlier | hlast
    · exact h report hearlier r hr
    · rw [List.mem_singleton.mp hlast] at hr
      cases hr
  · intro reports blob d p record q htells h report hreport r hr
    rcases List.mem_append.mp hreport with hearlier | hlast
    · exact h report (List.mem_append_left _ hearlier) r hr
    · rw [List.mem_singleton.mp hlast] at hr ⊢
      rcases List.mem_append.mp hr with hbefore | hrecord
      · exact h ⟨blob, d⟩
          (List.mem_append_right _ (List.mem_singleton_self _)) r hbefore
      · rw [List.mem_singleton] at hrecord
        subst hrecord
        cases htells with
        | @request _ trace htrace =>
            exact ⟨trace, htrace⟩
        | completion hcompletion =>
            cases hcompletion
        | other hrequest _ _ =>
            cases hrequest

theorem exists_comesFrom {arrivals : List Blob} {a : Asked}
    (h : a ∈ asked (accepted ∅ arrivals)) :
    ∃ report ∈ accepted ∅ arrivals, a.ComesFrom report := by
  rcases List.mem_flatMap.mp h with ⟨report, hreport, hasked⟩
  rcases List.mem_filterMap.mp hasked with ⟨record, hrecord, hsome⟩
  rcases Option.map_eq_some_iff.mp hsome with ⟨r, hrequest, rfl⟩
  cases record with
  | request _ =>
      cases hrequest
      rcases exists_stackTrace arrivals report hreport r hrecord with
        ⟨trace, htrace⟩
      rcases stackTrace?_eq_some_iff.mp htrace with ⟨hinside, hframes⟩
      have hasked : ((report.data.stackTrace? r.callSite).getD []) = trace := by
        rw [htrace]
        rfl
      exact ⟨report, hreport, rfl, hrecord, hinside, hasked.trans hframes⟩
  | _ =>
      cases hrequest

/-! ## Call sites after a run -/

theorem callSites_receive (arrivals : List Blob) :
    (receive ∅ arrivals).callSites = sitesOf (notices (accepted ∅ arrivals)) :=
  (recorded_receive arrivals).callSites

theorem callSites_grow (arrivals more : List Blob) :
    (receive ∅ arrivals).callSites <+:
      (receive ∅ (arrivals ++ more)).callSites := by
  rw [callSites_receive, callSites_receive, accepted_append, notices_append]
  exact prefix_sitesOf_append _ _

structure StandsFor (arrivals : List Blob) (callSite : Nat) (a : Asked) :
    Prop where
  known : callSite < (receive ∅ arrivals).callSites.length
  frames : (receive ∅ arrivals).callSites[callSite]? = some a.frames
  own : ∃ report ∈ accepted ∅ arrivals, a.ComesFrom report

theorem standsFor_of_mem_meetings {arrivals : List Blob} {m : Meeting}
    (h : m ∈ meetings (notices (accepted ∅ arrivals))) :
    StandsFor arrivals
      ((receive ∅ arrivals).callSites.idxOf m.asked.frames) m.asked := by
  have hframes := frames_of_mem_meetings h
  rw [← callSites_receive] at hframes
  have hlt := List.idxOf_lt_length_of_mem hframes
  constructor
  · exact hlt
  · rw [List.getElem?_eq_getElem hlt, List.getElem_idxOf hlt]
  · exact exists_comesFrom (mem_notices.mp (mem_of_mem_meetings h).1)

/-- What call sites tell of the activities that are stored after a run. -/
structure FaithfulSites (arrivals : List Blob) : Prop where
  /-- No trace is there twice. -/
  distinct : (receive ∅ arrivals).callSites.Nodup
  /-- Whatever arrives later, traces are only added at the end. -/
  grows : ∀ more, (receive ∅ arrivals).callSites <+:
    (receive ∅ (arrivals ++ more)).callSites
  /-- An execution is that of a request and a completion that met, and has the
  call site of the request. -/
  kernels : ∀ t, ∀ k ∈ ((receive ∅ arrivals).thread t).kernels,
    ∃ m ∈ meetings (notices (accepted ∅ arrivals)),
      m.kernel? (receive ∅ arrivals).callSites t = some k ∧
        StandsFor arrivals k.callSite m.asked
  transfers : ∀ t, ∀ x ∈ ((receive ∅ arrivals).thread t).transfers,
    ∃ m ∈ meetings (notices (accepted ∅ arrivals)),
      m.transfer? (receive ∅ arrivals).callSites t = some x ∧
        StandsFor arrivals x.callSite m.asked

/-- However blobs arrive, and whichever of them are refused, call sites are
distinct and keep their places, and that of every stored activity is the stack
trace of its own request. -/
theorem call_sites_are_faithful (arrivals : List Blob) :
    FaithfulSites arrivals := by
  constructor
  · rw [callSites_receive]
    exact nodup_eraseDups _
  · intro more
    exact callSites_grow arrivals more
  · intro t k hk
    rcases exists_meeting_of_mem_kernels hk with ⟨m, hm, hkernel, hsite, _⟩
    refine ⟨m, hm, hkernel, ?_⟩
    rw [hsite]
    exact standsFor_of_mem_meetings hm
  · intro t x hx
    rcases exists_meeting_of_mem_transfers hx with ⟨m, hm, htransfer, hsite, _⟩
    refine ⟨m, hm, htransfer, ?_⟩
    rw [hsite]
    exact standsFor_of_mem_meetings hm

end PerformanceData
end Cuda
end CudaProfile
