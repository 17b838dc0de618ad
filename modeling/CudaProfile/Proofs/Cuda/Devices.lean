import CudaProfile.Proofs.Cuda.Recording
/-!
# Devices of activities

An activity gets the device of its context when its request and its completion
meet. A context that is told of by then gives its device, whichever threads the
request, the completion and the context came from, and in whichever order. A
context that is told of later does not change what is stored.
-/

namespace CudaProfile
namespace Cuda

open Std Lexicographic

/-- A device is that of a context, as far as notices tell of the context. -/
structure DeviceBy (before : List Notice) (context : UInt64) (device : UInt32) :
    Prop where
  told : ∀ info, .context info ∈ before → info.context = context →
    device = info.device
  untold : (∀ info, .context info ∈ before → info.context ≠ context) →
    device = 0

namespace Notice

theorem deviceOf?_eq_some_iff {context : UInt64} {n : Notice}
    {device : UInt32} :
    n.deviceOf? context = some device ↔
      ∃ info, n = .context info ∧ info.context = context ∧
        info.device = device := by
  cases n with
  | event e =>
      simp [deviceOf?, context?]
  | context info =>
      simp [deviceOf?, context?, Option.filter]

end Notice

theorem exists_of_deviceOf? {history : List Notice} {context : UInt64}
    {device : UInt32} (h : deviceOf? history context = some device) :
    ∃ info, .context info ∈ history ∧ info.context = context ∧
      info.device = device := by
  rcases List.exists_of_findSome?_eq_some h with ⟨n, hn, hdevice⟩
  rcases Notice.deviceOf?_eq_some_iff.mp hdevice with ⟨info, rfl, hinfo⟩
  exact ⟨info, List.mem_reverse.mp hn, hinfo⟩

theorem not_mem_of_deviceOf?_eq_none {history : List Notice}
    {info : ContextInfo} (h : deviceOf? history info.context = none) : .context info ∉ history := by
  intro hmem
  have hnone := List.findSome?_eq_none_iff.mp h _ (List.mem_reverse.mpr hmem)
  rw [Notice.deviceOf?_eq_some_iff.mpr ⟨info, rfl, rfl, rfl⟩] at hnone
  cases hnone

/-- If no context is told of twice, its only notice counts. -/
theorem deviceBy_deviceOf? {before : List Notice}
    (h : ((before.filterMap Notice.context?).map ContextInfo.context).Nodup)
    (context : UInt64) :
    DeviceBy before context ((deviceOf? before context).getD 0) := by
  cases hdevice : deviceOf? before context with
  | none =>
      constructor
      · intro info hmem hcontext
        rw [← hcontext] at hdevice
        exact absurd hmem (not_mem_of_deviceOf?_eq_none hdevice)
      · intro _
        rfl
  | some device =>
      rcases exists_of_deviceOf? hdevice with ⟨known, hknown, hcontext, rfl⟩
      constructor
      · intro info hmem hsame
        have hinfo : info ∈ before.filterMap Notice.context? :=
          List.mem_filterMap.mpr ⟨_, hmem, rfl⟩
        have hother : known ∈ before.filterMap Notice.context? :=
          List.mem_filterMap.mpr ⟨_, hknown, rfl⟩
        rw [List.inj_on_of_nodup_map h hinfo hother
          (hsame.trans hcontext.symm)]
        rfl
      · intro huntold
        exact absurd hcontext (huntold known hknown)

theorem nodup_contexts_before {reports : List Report}
    {before later : List Notice} (h : ((contextsTold reports).map ContextInfo.context).Nodup)
    (heq : notices reports = before ++ later) :
    ((before.filterMap Notice.context?).map ContextInfo.context).Nodup := by
  rw [← filterMap_context?_notices, heq, List.filterMap_append,
    List.map_append] at h
  exact (List.nodup_append.mp h).1

def Completion.key : Completion → RequestKey
  | exec e => e.key
  | xfer x => x.key

theorem key_of_mem_completed {reports : List Report}
    {c : RequestKey × Completion} (h : c ∈ completed reports) :
    c.1 = c.2.key := by
  rcases List.mem_flatMap.mp h with ⟨report, _, hrecord⟩
  rcases List.mem_filterMap.mp hrecord with ⟨record, _, hcompletion⟩
  cases record with
  | completedExec e =>
      cases hcompletion
      rfl
  | completedXfer x =>
      cases hcompletion
      rfl
  | _ =>
      cases hcompletion

theorem context_of_mem_meetings {reports : List Report} {m : Meeting}
    (h : m ∈ meetings (notices reports)) {sites : List (List Address)}
    {t : ThreadName} {k : KernelExecution} (hk : m.kernel? sites t = some k) :
    k.context = m.asked.request.context := by
  have hkey := key_of_mem_completed
    (completed_of_mem_notices (mem_of_mem_meetings h).2)
  unfold Meeting.kernel? at hk
  split at hk
  · next e _ hexec =>
    rcases Option.ite_none_right_eq_some.mp hk with ⟨_, hsome⟩
    cases hsome
    rw [hexec] at hkey
    exact (congrArg Prod.fst hkey).symm
  · cases hk

namespace PerformanceData

/-- A device is the one that the context of a meeting's request was said to have
when the meeting took place. -/
def DeviceWhenMet (arrivals : List Blob) (m : Meeting) (device : UInt32) :
    Prop :=
  ∃ before e later,
    notices (accepted ∅ arrivals) = before ++ .event e :: later ∧
      Meets before m e ∧ DeviceBy before m.asked.request.context device

theorem deviceWhenMet_of_mem_meetings {arrivals : List Blob}
    (hcontexts :
      ((contextsTold (accepted ∅ arrivals)).map ContextInfo.context).Nodup)
    {m : Meeting} (h : m ∈ meetings (notices (accepted ∅ arrivals))) :
    DeviceWhenMet arrivals m m.device := by
  rcases exists_of_mem_meetings h with
    ⟨before, e, later, heq, hmeets, hdevice⟩
  refine ⟨before, e, later, heq, hmeets, ?_⟩
  rw [hdevice]
  exact deviceBy_deviceOf? (nodup_contexts_before hcontexts heq) _

/-- If no context is told of twice, then every stored activity has the device
of its context if the context was told of before the later one of its request
and its completion, and no device otherwise. -/
theorem devices_known_when_met (arrivals : List Blob)
    (hcontexts :
      ((contextsTold (accepted ∅ arrivals)).map ContextInfo.context).Nodup) :
    (∀ t, ∀ k ∈ ((receive ∅ arrivals).thread t).kernels,
      ∃ m ∈ meetings (notices (accepted ∅ arrivals)),
        m.kernel? (receive ∅ arrivals).callSites t = some k ∧
          k.context = m.asked.request.context ∧
          DeviceWhenMet arrivals m k.device) ∧
    ∀ t, ∀ x ∈ ((receive ∅ arrivals).thread t).transfers,
      ∃ m ∈ meetings (notices (accepted ∅ arrivals)),
        m.transfer? (receive ∅ arrivals).callSites t = some x ∧
          DeviceWhenMet arrivals m x.device := by
  constructor
  · intro t k hk
    rcases exists_meeting_of_mem_kernels hk with ⟨m, hm, hkernel, _, hdevice⟩
    refine ⟨m, hm, hkernel, context_of_mem_meetings hm hkernel, ?_⟩
    rw [hdevice]
    exact deviceWhenMet_of_mem_meetings hcontexts hm
  · intro t x hx
    rcases exists_meeting_of_mem_transfers hx with
      ⟨m, hm, htransfer, _, hdevice⟩
    refine ⟨m, hm, htransfer, ?_⟩
    rw [hdevice]
    exact deviceWhenMet_of_mem_meetings hcontexts hm

def lateContext : List Blob :=
  let header (pid : UInt64) : BlobHeader :=
    ⟨0, 0, collectorId, .ofName ⟨"a", pid, none, none⟩, ⟨0, 1⟩⟩
  let exec (context : UInt64) : Record :=
    .completedExec ⟨context, 2, 3, 20, 30, "f", ⟨1, 1, 1⟩, ⟨8, 8, 1⟩, .none, 16,
      0, 0, 0⟩
  [Data.toBlob ⟨[.contextInfo ⟨1, 4⟩, .request ⟨.executeKernel, 10, 1, 2, 3, 0⟩,
      exec 1, .request ⟨.executeKernel, 11, 5, 2, 3, 0⟩, exec 5], [7, 8, 0]⟩
      (header 1),
    Data.toBlob ⟨[.contextInfo ⟨5, 6⟩], []⟩ (header 2)]

theorem devices_known_when_met_late_context :
    ((contextsTold (accepted ∅ lateContext)).map ContextInfo.context).Nodup ∧
    ((receive ∅ lateContext).thread ⟨"a", 1, none, none⟩).kernels.map
        KernelExecution.device = [4, 0] ∧
    ∀ t, ∀ k ∈ ((receive ∅ lateContext).thread t).kernels,
      ∃ m ∈ meetings (notices (accepted ∅ lateContext)),
        m.kernel? (receive ∅ lateContext).callSites t = some k ∧
          k.context = m.asked.request.context ∧
          DeviceWhenMet lateContext m k.device := by
  have hcontexts : ((contextsTold (accepted ∅ lateContext)).map
      ContextInfo.context).Nodup := by
    decide +kernel
  refine ⟨hcontexts, by decide +kernel, ?_⟩
  exact (devices_known_when_met lateContext hcontexts).1

/-- Not every activity has the device of its context, even if all blobs are
accepted, no context is told of twice, and no key is requested or completed
twice. -/
theorem not_devices_known_at_last :
    ¬∀ arrivals,
      (accepted ∅ arrivals).length = arrivals.length →
      ((contextsTold (accepted ∅ arrivals)).map ContextInfo.context).Nodup →
      ((asked (accepted ∅ arrivals)).map Asked.key).Nodup →
      ((completed (accepted ∅ arrivals)).map Prod.fst).Nodup →
      ∀ t, ∀ k ∈ ((receive ∅ arrivals).thread t).kernels,
        ∀ info ∈ contextsTold (accepted ∅ arrivals), info.context = k.context →
          k.device = info.device := by
  intro h
  have hdevices := h lateContext (by decide +kernel) (by decide +kernel)
    (by decide +kernel) (by decide +kernel) ⟨"a", 1, none, none⟩
  exact absurd hdevices (by decide +kernel)

end PerformanceData
end Cuda
end CudaProfile
