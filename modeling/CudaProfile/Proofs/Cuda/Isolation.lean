import CudaProfile.Proofs.Cuda.Acceptance
import CudaProfile.Proofs.Cuda.Pairing
/-!
# Processes beside one another

Requests and completions find each other by keys that do not name a process. If
the keys of the requests that some processes make come up nowhere else, then for
these processes it is as if the others were not there: the data of all blobs and
the data of theirs alone agree, blob after blob, on what waits and what is
parked under these keys and on what is stored for their threads. Processes that
share a key do take each other's completions.
-/

namespace CudaProfile

def ThreadName.process (t : ThreadName) : String × UInt64 :=
  (t.host, t.pid)

namespace Cuda

open Std Lexicographic

/-! ## What is visited -/

def KernelExecution.activity (sites : List (List Address))
    (k : KernelExecution) : Activity :=
  .kernel sites[k.callSite]? k.time k.completion

def DataTransfer.activity (sites : List (List Address)) (x : DataTransfer) :
    Activity :=
  .transfer sites[x.callSite]? x.time x.timeBegin x.timeEnd x.size x.kind
    x.sourceKind x.destinationKind x.asynchronous

def Activity.interval : Activity → TimeInterval
  | kernel _ time exec => ⟨time, max exec.timeEnd time⟩
  | transfer _ time _ timeEnd _ _ _ _ _ => ⟨time, max timeEnd time⟩

structure Visits where
  kernels : List Activity
  transfers : List Activity

namespace Visits

def within (v : Visits) (interval : TimeInterval) : Visits :=
  ⟨v.kernels.filter fun a => a.interval.intersects interval,
    v.transfers.filter fun a => a.interval.intersects interval⟩

def push (v : Visits) : Option Activity → Visits
  | none => v
  | some (.kernel frames time exec) =>
      ⟨v.kernels ++ [.kernel frames time exec], v.transfers⟩
  | some activity => ⟨v.kernels, v.transfers ++ [activity]⟩

def Known (v : Visits) : Prop :=
  ∀ activity ∈ v.kernels ++ v.transfers, activity.frames ≠ none

theorem mem_push {v : Visits} {last a : Activity}
    (h : a ∈ (v.push (some last)).kernels ++ (v.push (some last)).transfers) :
    a = last ∨ a ∈ v.kernels ++ v.transfers := by
  cases last with
  | kernel =>
      simp only [push, List.mem_append, List.mem_singleton] at h ⊢
      grind
  | transfer =>
      simp only [push, List.mem_append, List.mem_singleton] at h ⊢
      grind

theorem Known.push {v : Visits} (h : v.Known) {activity : Option Activity}
    (hframes : ∀ a, activity = some a → a.frames ≠ none) :
    (v.push activity).Known := by
  intro a ha
  cases activity with
  | none =>
      exact h a ha
  | some last =>
      rcases mem_push ha with rfl | ha
      · exact hframes a rfl
      · exact h a ha

end Visits

def ThreadData.visits (sites : List (List Address)) (data : ThreadData) :
    Visits :=
  ⟨data.kernels.map fun k => k.activity sites,
    data.transfers.map fun x => x.activity sites⟩

namespace PerformanceData

/-- What a visit of the executions and one of the copies of a thread show for an
interval, with call sites by their frames and regardless of devices. -/
def visitsIn (p : PerformanceData) (t : ThreadName) (interval : TimeInterval) :
    Visits :=
  ⟨(p.kernelsIn t interval).map fun k => k.activity p.callSites,
    (p.transfersIn t interval).map fun x => x.activity p.callSites⟩

def visits (p : PerformanceData) (t : ThreadName) : Visits :=
  (p.thread t).visits p.callSites

theorem visitsIn_eq (p : PerformanceData) (t : ThreadName)
    (interval : TimeInterval) :
    p.visitsIn t interval = (p.visits t).within interval := by
  unfold visitsIn visits ThreadData.visits Visits.within kernelsIn transfersIn
  rw [List.filter_map, List.filter_map]
  rfl

theorem visits_changeThread (p : PerformanceData) (name t : ThreadName)
    (f : ThreadData → ThreadData) :
    (p.changeThread name f).visits t =
      if t = name then (f (p.thread t)).visits p.callSites else p.visits t := by
  unfold visits
  rw [thread_changeThread]
  by_cases h : t = name
  · rw [if_pos h, if_pos h, h]
    rfl
  · rw [if_neg h, if_neg h]
    rfl

theorem visits_congr {p q : PerformanceData} {t : ThreadName}
    (hsites : p.callSites <+: q.callSites)
    (hkernels : (q.thread t).kernels = (p.thread t).kernels)
    (htransfers : (q.thread t).transfers = (p.thread t).transfers)
    (hknown : (p.visits t).Known) : q.visits t = p.visits t := by
  have hactivities : (q.visits t).kernels ++ (q.visits t).transfers =
      (p.visits t).kernels ++ (p.visits t).transfers :=
    activities_congr hsites hkernels htransfers hknown
  have hlength : (q.visits t).kernels.length = (p.visits t).kernels.length := by
    unfold visits ThreadData.visits
    rw [hkernels, List.length_map, List.length_map]
  rcases List.append_inj hactivities hlength with ⟨hfirst, hsecond⟩
  cases hq : q.visits t
  cases hp : p.visits t
  rw [hq, hp] at hfirst hsecond
  cases hfirst
  cases hsecond
  rfl

theorem visits_join {p : PerformanceData} {a : Asked} {number : Nat}
    (hsite : p.callSites[number]? = some a.frames) (completion : Completion)
    (t : ThreadName) :
    (p.join ⟨a.thread, a.request, number⟩ completion).visits t =
      (p.visits t).push (activityOf t (a, completion)) := by
  rcases a with ⟨thread, frames, request⟩
  unfold join activityOf
  simp only
  split
  · next x hkind =>
    rw [visits_changeThread]
    by_cases ht : t = thread
    · rw [if_pos ht, if_pos ht.symm, hkind]
      simp [visits, ThreadData.visits, Visits.push, DataTransfer.activity,
        Pending.transfer, hsite]
    · rw [if_neg ht, if_neg (Ne.symm ht)]
      rfl
  · next e hkind =>
    rw [visits_changeThread]
    by_cases ht : t = thread
    · rw [if_pos ht, if_pos ht.symm, hkind]
      simp [visits, ThreadData.visits, Visits.push, KernelExecution.activity,
        KernelExecution.completion, Pending.execution, hsite]
    · rw [if_neg ht, if_neg (Ne.symm ht)]
      rfl
  · next e hkind =>
    simp [hkind, Visits.push]
  · next x hkind =>
    simp [hkind, Visits.push]

theorem visits_join_of_ne {p : PerformanceData} {pending : Pending}
    {t : ThreadName} (h : pending.thread ≠ t) (completion : Completion) :
    (p.join pending completion).visits t = p.visits t := by
  unfold join
  simp only
  split
  · rw [visits_changeThread, if_neg h.symm]
  · rw [visits_changeThread, if_neg h.symm]
  · rfl
  · rfl

/-! ## Requests that wait in two data -/

/-- The same request waits, or none does. Its call site may have different
numbers in two lists of stack traces, but has the same frames. -/
inductive Counterparts (sites sites' : List (List Address)) :
    Option Pending → Option Pending → Prop
  | none : Counterparts sites sites' none none
  | some {thread : ThreadName} {request : Request} {number number' : Nat}
      {trace : List Address} (hsite : sites[number]? = some trace)
      (hsite' : sites'[number']? = some trace) :
      Counterparts sites sites' (some ⟨thread, request, number⟩)
        (some ⟨thread, request, number'⟩)

theorem Counterparts.symm {sites sites' : List (List Address)}
    {a b : Option Pending} (h : Counterparts sites sites' a b) :
    Counterparts sites' sites b a := by
  cases h with
  | none =>
      exact .none
  | some hsite hsite' =>
      exact .some hsite' hsite

theorem Counterparts.mono {sites sites' more more' : List (List Address)}
    {a b : Option Pending} (h : Counterparts sites sites' a b)
    (hsites : sites <+: more) (hsites' : sites' <+: more') :
    Counterparts more more' a b := by
  cases h with
  | none =>
      exact .none
  | some hsite hsite' =>
      have hmore := getElem?_of_prefix hsites hsite
      have hmore' := getElem?_of_prefix hsites' hsite'
      exact .some hmore hmore'

/-! ## Data that agree about some threads -/

section Agreement

variable (inside : ThreadName → Bool) (mine : RequestKey → Prop)

def Foreign (p : PerformanceData) : Prop :=
  ∀ key pending, ¬mine key → p.requests.get? key = some pending →
    inside pending.thread = false

structure Alike (p q : PerformanceData) : Prop where
  visits : ∀ t, inside t = true → q.visits t = p.visits t
  known : ∀ t, inside t = true → (p.visits t).Known
  waiting : ∀ key, mine key →
    Counterparts p.callSites q.callSites (p.requests.get? key)
      (q.requests.get? key)
  parked : ∀ key, mine key → q.parked.get? key = p.parked.get? key
  foreign : Foreign inside mine p
  foreign' : Foreign inside mine q

/-- What changes has nothing to do with the threads inside, nor with the keys of
their requests. -/
structure Aside (p p' : PerformanceData) : Prop where
  sites : p.callSites <+: p'.callSites
  visits : ∀ t, inside t = true → (p.visits t).Known →
    p'.visits t = p.visits t
  waiting : ∀ key, mine key → p'.requests.get? key = p.requests.get? key
  parked : ∀ key, mine key → p'.parked.get? key = p.parked.get? key
  foreign : Foreign inside mine p → Foreign inside mine p'

end Agreement

section Agreement

variable {inside : ThreadName → Bool} {mine : RequestKey → Prop}
  {p p' q q' : PerformanceData}

theorem alike_empty : Alike inside mine ∅ ∅ := by
  constructor
  · intro t _
    rfl
  · intro t _ activity hmem
    cases hmem
  · intro key _
    exact .none
  · intro key _
    rfl
  · intro key pending _ hget
    cases hget
  · intro key pending _ hget
    cases hget

theorem Alike.symm (h : Alike inside mine p q) : Alike inside mine q p := by
  constructor
  · intro t ht
    exact (h.visits t ht).symm
  · intro t ht
    rw [h.visits t ht]
    exact h.known t ht
  · intro key hkey
    exact (h.waiting key hkey).symm
  · intro key hkey
    exact (h.parked key hkey).symm
  · exact h.foreign'
  · exact h.foreign

theorem Alike.aside (h : Alike inside mine p q)
    (haside : Aside inside mine p p') : Alike inside mine p' q := by
  constructor
  · intro t ht
    rw [haside.visits t ht (h.known t ht)]
    exact h.visits t ht
  · intro t ht
    rw [haside.visits t ht (h.known t ht)]
    exact h.known t ht
  · intro key hkey
    rw [haside.waiting key hkey]
    exact (h.waiting key hkey).mono haside.sites (List.prefix_refl _)
  · intro key hkey
    rw [haside.parked key hkey]
    exact h.parked key hkey
  · exact haside.foreign h.foreign
  · exact h.foreign'

theorem Alike.aside_both (h : Alike inside mine p q)
    (haside : Aside inside mine p p') (haside' : Aside inside mine q q') :
    Alike inside mine p' q' :=
  ((h.aside haside).symm.aside haside').symm

/-! ## Changes aside -/

theorem aside_keep (p : PerformanceData) (blob : Blob) :
    Aside inside mine p (p.keep blob) := by
  constructor
  · exact List.prefix_refl _
  · intro t _ _
    unfold keep
    rw [visits_changeThread]
    split
    · rfl
    · rfl
  · intro key _
    rfl
  · intro key _
    rfl
  · intro h
    exact h

theorem aside_sampled {name : ThreadName} (h : Sampled name p p') :
    Aside inside mine p p' := by
  have hsites : p.callSites <+: p'.callSites :=
    ⟨[], by rw [List.append_nil, h.callSites]⟩
  constructor
  · exact hsites
  · intro t _ hknown
    exact visits_congr hsites (h.kernels t) (h.transfers t) hknown
  · intro key _
    rw [h.requests]
  · intro key _
    rw [h.parked]
  · intro hforeign key pending hkey hget
    rw [h.requests] at hget
    exact hforeign key pending hkey hget

theorem aside_enqueue {name : ThreadName} (hname : inside name = false)
    (trace : List Address) {r : Request} (hkey : ¬mine r.key) :
    Aside inside mine p (p.enqueue name trace r) := by
  have hne : ∀ t, inside t = true → name ≠ t := by
    intro t ht heq
    rw [heq, ht] at hname
    cases hname
  have hother : ∀ key, mine key → key ≠ r.key :=
    fun key hmine heq => hkey (heq ▸ hmine)
  rcases p.enqueue_eq name trace r with ⟨sites, number, hsites, _, heq⟩
  rw [heq]
  split
  · constructor
    · rw [callSites_join]
      exact hsites
    · intro t ht hknown
      rw [visits_join_of_ne (hne t ht)]
      exact visits_congr hsites rfl rfl hknown
    · intro key _
      rw [requests_join]
    · intro key hmine
      rw [parked_join, OrderedMap.get?_erase, if_neg (hother key hmine)]
    · intro hforeign key pending hmine hget
      rw [requests_join] at hget
      exact hforeign key pending hmine hget
  · constructor
    · exact hsites
    · intro t _ hknown
      exact visits_congr hsites rfl rfl hknown
    · intro key hmine
      rw [OrderedMap.get?_insert, if_neg (hother key hmine)]
    · intro key _
      rfl
    · intro hforeign key pending hmine hget
      rw [OrderedMap.get?_insert] at hget
      split at hget
      · cases hget
        exact hname
      · exact hforeign key pending hmine hget

theorem aside_complete (hforeign : Foreign inside mine p) {key : RequestKey}
    (hkey : ¬mine key) (completion : Completion) :
    Aside inside mine p (p.complete key completion) := by
  have hother : ∀ k, mine k → k ≠ key :=
    fun k hmine heq => hkey (heq ▸ hmine)
  unfold complete
  split
  · next pending hpending =>
    have houtside := hforeign key pending hkey hpending
    constructor
    · rw [callSites_join]
    · intro t ht _
      apply visits_join_of_ne
      intro heq
      rw [heq, ht] at houtside
      cases houtside
    · intro k hmine
      rw [requests_join, OrderedMap.get?_erase, if_neg (hother k hmine)]
    · intro k _
      rw [parked_join]
    · intro hforeign k other hmine hget
      rw [requests_join, OrderedMap.get?_erase] at hget
      split at hget
      · cases hget
      · exact hforeign k other hmine hget
  · constructor
    · exact List.prefix_refl _
    · intro t _ _
      rfl
    · intro k _
      rfl
    · intro k hmine
      rw [OrderedMap.get?_insert, if_neg (hother k hmine)]
    · intro hforeign
      exact hforeign

/-! ## Requests and completions inside -/

theorem Alike.rewrite (h : Alike inside mine p q)
    (hsites : p.callSites <+: p'.callSites)
    (hsites' : q.callSites <+: q'.callSites)
    (hthreads : p'.threads = p.threads) (hthreads' : q'.threads = q.threads)
    (hwaiting : ∀ key, mine key →
      Counterparts p'.callSites q'.callSites (p'.requests.get? key)
        (q'.requests.get? key))
    (hparked : ∀ key, mine key → q'.parked.get? key = p'.parked.get? key)
    (hforeign : Foreign inside mine p') (hforeign' : Foreign inside mine q') :
    Alike inside mine p' q' := by
  have hsame : ∀ t, inside t = true → p'.visits t = p.visits t := by
    intro t ht
    have hthread := thread_congr hthreads t
    exact visits_congr hsites (by rw [hthread]) (by rw [hthread])
      (h.known t ht)
  have hsame' : ∀ t, inside t = true → q'.visits t = q.visits t := by
    intro t ht
    have hthread := thread_congr hthreads' t
    exact visits_congr hsites' (by rw [hthread]) (by rw [hthread])
      (h.symm.known t ht)
  constructor
  · intro t ht
    rw [hsame t ht, hsame' t ht]
    exact h.visits t ht
  · intro t ht
    rw [hsame t ht]
    exact h.known t ht
  · exact hwaiting
  · exact hparked
  · exact hforeign
  · exact hforeign'

theorem Alike.join (h : Alike inside mine p q) (a : Asked) {number number' : Nat}
    (hsite : p.callSites[number]? = some a.frames)
    (hsite' : q.callSites[number']? = some a.frames)
    (completion : Completion) :
    Alike inside mine (p.join ⟨a.thread, a.request, number⟩ completion)
      (q.join ⟨a.thread, a.request, number'⟩ completion) := by
  constructor
  · intro t ht
    rw [visits_join hsite, visits_join hsite', h.visits t ht]
  · intro t ht
    rw [visits_join hsite]
    exact (h.known t ht).push fun _ => frames_of_activityOf
  · intro key hkey
    rw [requests_join, requests_join]
    rw [callSites_join, callSites_join]
    exact h.waiting key hkey
  · intro key hkey
    rw [parked_join, parked_join]
    exact h.parked key hkey
  · unfold Foreign
    rw [requests_join]
    exact h.foreign
  · unfold Foreign
    rw [requests_join]
    exact h.foreign'

theorem Foreign.erase {key : RequestKey} (h : Foreign inside mine p)
    (herase : p'.requests = p.requests.erase key) : Foreign inside mine p' := by
  intro k pending hmine hget
  rw [herase, OrderedMap.get?_erase] at hget
  split at hget
  · cases hget
  · exact h k pending hmine hget

theorem Foreign.insert {key : RequestKey} {pending : Pending}
    (h : Foreign inside mine p) (hkey : mine key)
    (hinsert : p'.requests = p.requests.insert key pending) :
    Foreign inside mine p' := by
  intro k other hmine hget
  rw [hinsert, OrderedMap.get?_insert] at hget
  split at hget
  · next heq =>
    exact absurd (heq ▸ hkey) hmine
  · exact h k other hmine hget

theorem Alike.enqueue (h : Alike inside mine p q) (name : ThreadName)
    (trace : List Address) {r : Request} (hkey : mine r.key) :
    Alike inside mine (p.enqueue name trace r) (q.enqueue name trace r) := by
  rcases p.enqueue_eq name trace r with ⟨sites, number, hsites, hsite, heq⟩
  rcases q.enqueue_eq name trace r with
    ⟨sites', number', hsites', hsite', heq'⟩
  rw [heq, heq', h.parked r.key hkey]
  cases p.parked.get? r.key with
  | some completion =>
      refine Alike.join ?_ ⟨name, trace, r⟩ hsite hsite' completion
      refine h.rewrite hsites hsites' rfl rfl ?_ ?_ h.foreign h.foreign'
      · intro key hmine
        exact (h.waiting key hmine).mono hsites hsites'
      · intro key hmine
        simp only [OrderedMap.get?_erase, h.parked key hmine]
  | none =>
      refine h.rewrite hsites hsites' rfl rfl ?_ h.parked
        (h.foreign.insert hkey rfl) (h.foreign'.insert hkey rfl)
      intro key hmine
      simp only [OrderedMap.get?_insert]
      split
      · exact .some hsite hsite'
      · exact (h.waiting key hmine).mono hsites hsites'

theorem Alike.complete (h : Alike inside mine p q) {key : RequestKey}
    (hkey : mine key) (completion : Completion) :
    Alike inside mine (p.complete key completion)
      (q.complete key completion) := by
  have hsites := List.prefix_refl p.callSites
  have hsites' := List.prefix_refl q.callSites
  have hwaiting := h.waiting key hkey
  unfold PerformanceData.complete
  generalize hp : p.requests.get? key = waiting at hwaiting
  generalize hq : q.requests.get? key = waiting' at hwaiting
  cases hwaiting with
  | none =>
      simp only
      refine h.rewrite hsites hsites' rfl rfl h.waiting ?_ h.foreign h.foreign'
      intro k hmine
      simp only [OrderedMap.get?_insert, h.parked k hmine]
  | @some thread request number number' trace hsite hsite' =>
      simp only
      refine Alike.join (p := { p with requests := p.requests.erase key })
        (q := { q with requests := q.requests.erase key }) ?_
        ⟨thread, trace, request⟩ hsite hsite' completion
      refine h.rewrite hsites hsites' rfl rfl ?_ h.parked
        (h.foreign.erase rfl) (h.foreign'.erase rfl)
      intro k hmine
      simp only [OrderedMap.get?_erase]
      split
      · exact .none
      · exact h.waiting k hmine

end Agreement

end PerformanceData

/-! ## Records -/

def Record.key? : Record → Option RequestKey
  | .request r => some r.key
  | .completedExec e => some e.key
  | .completedXfer x => some x.key
  | _ => none

theorem key?_of_completion? {r : Record} {key : RequestKey}
    {completion : Completion} (h : r.completion? = some (key, completion)) :
    r.key? = some key := by
  cases r with
  | completedExec e =>
      cases h
      rfl
  | completedXfer x =>
      cases h
      rfl
  | _ =>
      cases h

namespace PerformanceData

section Records

variable {inside : ThreadName → Bool} {mine : RequestKey → Prop}
  {name : ThreadName} {d : Data} {p p' q q' : PerformanceData} {r : Record}

/-- A record from outside changes only what is aside. -/
theorem Tells.aside (h : Tells name d p r p') (hname : inside name = false)
    (hkey : ∀ key, r.key? = some key → ¬mine key)
    (hforeign : Foreign inside mine p) : Aside inside mine p p' := by
  cases h with
  | request htrace =>
      exact aside_enqueue hname _ (hkey _ rfl)
  | completion hrecord =>
      exact aside_complete hforeign (hkey _ (key?_of_completion? hrecord)) _
  | other _ _ hsampled =>
      exact aside_sampled hsampled

theorem Tells.alike (h : Tells name d p r p') (h' : Tells name d q r q')
    (hkey : ∀ request, r.request? = some request → mine request.key)
    (halike : Alike inside mine p q) : Alike inside mine p' q' := by
  cases h with
  | @request request trace htrace =>
      cases h' with
      | @request _ trace' htrace' =>
          rw [htrace] at htrace'
          cases htrace'
          exact halike.enqueue name trace (hkey request rfl)
      | completion hrecord =>
          cases hrecord
      | other hrequest _ _ =>
          cases hrequest
  | @completion _ key completion hrecord =>
      cases h' with
      | request htrace =>
          cases hrecord
      | @completion _ key' completion' hrecord' =>
          rw [hrecord] at hrecord'
          cases hrecord'
          by_cases hmine : mine key
          · exact halike.complete hmine completion
          · exact halike.aside_both
              (aside_complete halike.foreign hmine completion)
              (aside_complete halike.foreign' hmine completion)
      | other _ hnone _ =>
          rw [hrecord] at hnone
          cases hnone
  | other hrequest hnone hsampled =>
      cases h' with
      | request htrace =>
          cases hrequest
      | completion hrecord =>
          rw [hrecord] at hnone
          cases hnone
      | other _ _ hsampled' =>
          exact halike.aside_both (aside_sampled hsampled)
            (aside_sampled hsampled')

theorem forEach_applyRecord_both
    {related : PerformanceData → PerformanceData → Prop} {records : List Record}
    (step : ∀ r ∈ records, ∀ p p' q q', Tells name d p r p' →
      Tells name d q r q' → related p q → related p' q')
    (hcheck : checkAll d p.counters.length records = .ok ())
    (hcheck' : checkAll d q.counters.length records = .ok ())
    (h : related p q) :
    related (Outcome.forEach (applyRecord name d) p records).state
      (Outcome.forEach (applyRecord name d) q records).state := by
  induction records generalizing p q with
  | nil =>
      exact h
  | cons r rest ih =>
      rcases List.forall_mem_cons.mp step with ⟨hstep, hmore⟩
      unfold checkAll at hcheck hcheck'
      split at hcheck
      · next hfirst =>
        split at hcheck'
        · next hfirst' =>
          have hdone : ∃ p', applyRecord name d p r = .done p' ∧
              Tells name d p r p' ∧
                p'.counters.length = countersAfter p.counters.length r :=
            applyRecord_done hfirst
          have hdone' : ∃ q', applyRecord name d q r = .done q' ∧
              Tells name d q r q' ∧
                q'.counters.length = countersAfter q.counters.length r :=
            applyRecord_done hfirst'
          rcases hdone with ⟨p', happly, htells, hcounters⟩
          rcases hdone' with ⟨q', happly', htells', hcounters'⟩
          rw [← hcounters] at hcheck
          rw [← hcounters'] at hcheck'
          rw [Outcome.forEach_cons_of_done happly,
            Outcome.forEach_cons_of_done happly']
          exact ih hmore hcheck hcheck' (hstep p p' q q' htells htells' h)
        · cases hcheck'
      · cases hcheck

/-! ## Blobs -/

theorem alike_apply_inside {blob : Blob} (h : Alike inside mine p q)
    (hcounters : q.counters = p.counters) (hdata : Data.ofBlob blob = .ok d)
    (hfits : Fits p.counters d.pooled)
    (hkey : ∀ r ∈ d.records, ∀ request, r.request? = some request →
      mine request.key) :
    Alike inside mine (p.apply blob).state (q.apply blob).state := by
  have hfits' : Fits q.counters d.pooled := hcounters ▸ hfits
  rw [← (apply_of_fits hdata hfits).2, ← (apply_of_fits hdata hfits').2]
  apply forEach_applyRecord_both
  · intro r hr p p' q q' htells htells'
    exact htells.alike htells' (hkey r hr)
  · exact checkAll_pooled_iff.mpr hfits
  · exact checkAll_pooled_iff.mpr hfits'
  · exact h.aside_both (aside_keep p blob) (aside_keep q blob)

theorem alike_apply_outside {blob : Blob} (h : Alike inside mine p q)
    (hname : inside blob.thread = false) (hdata : Data.ofBlob blob = .ok d)
    (hfits : Fits p.counters d.pooled)
    (hkey : ∀ r ∈ d.records, ∀ key, r.key? = some key → ¬mine key) :
    Alike inside mine (p.apply blob).state q := by
  have hstep : ∀ before p r p', Tells blob.thread d p r p' →
      ((∀ r ∈ before, ∀ key, r.key? = some key → ¬mine key) →
        Alike inside mine p q) →
      (∀ s ∈ before ++ [r], ∀ key, s.key? = some key → ¬mine key) →
        Alike inside mine p' q := by
    intro before p r p' htells hbefore hall
    have halike := hbefore fun s hs => hall s (List.mem_append_left _ hs)
    have hlast := hall r (List.mem_append_right _ (List.mem_singleton_self r))
    exact halike.aside (htells.aside hname hlast halike.foreign)
  have hrun := forEach_applyRecord hstep (p := p.keep blob)
    (checkAll_pooled_iff.mpr hfits)
    (fun (_ : ∀ r ∈ ([] : List Record), _) => h.aside (aside_keep p blob))
  rcases hrun with ⟨p', heq, halike⟩
  rw [← (apply_of_fits hdata hfits).2, heq]
  exact halike hkey

theorem counters_apply_plain {blob : Blob} (hdata : Data.ofBlob blob = .ok d)
    (hfits : Fits p.counters d.pooled) (hcounters : p.counters = [])
    (hplain : ∀ r ∈ d.records, r.counters? = none) :
    (p.apply blob).state.counters = [] := by
  rcases apply_of_fits hdata hfits with ⟨hrefusal, happly⟩
  rw [← happly] at hrefusal ⊢
  have hnone : d.records.filterMap Record.counters? = [] :=
    List.filterMap_eq_nil_iff.mpr hplain
  rw [counters_forEach (Outcome.eq_done_iff.mpr ⟨rfl, hrefusal⟩), counters_keep,
    hcounters, configured, hnone]
  rfl

/-! ## Runs -/

/-- A report that leaves the counters alone, with requests of the keys in
question if it comes from inside, and with nothing of these keys if not. -/
structure Apart (inside : ThreadName → Bool) (mine : RequestKey → Prop)
    (report : Report) : Prop where
  plain : ∀ r ∈ report.data.records, r.counters? = none
  requested : inside report.thread = true → ∀ r ∈ report.data.records,
    ∀ request, r.request? = some request → mine request.key
  others : inside report.thread = false → ∀ r ∈ report.data.records,
    ∀ key, r.key? = some key → ¬mine key

theorem Alike.receive {arrivals : List Blob} (h : Alike inside mine p q)
    (hp : p.counters = []) (hq : q.counters = [])
    (hreports : ∀ report ∈ p.accepted arrivals, Apart inside mine report) :
    Alike inside mine (p.receive arrivals)
      (q.receive (arrivals.filter fun blob => inside blob.thread)) := by
  induction arrivals generalizing p q with
  | nil =>
      exact h
  | cons blob rest ih =>
      have hcounters : q.counters = p.counters := hq.trans hp.symm
      by_cases haccepted : (p.apply blob).refusal = none
      · rcases refusal_apply_eq_none_iff.mp haccepted with ⟨d, hdata, hfits⟩
        rw [accepted_cons_of_accepted hdata haccepted] at hreports
        rcases List.forall_mem_cons.mp hreports with ⟨hreport, hmore⟩
        have hp' := counters_apply_plain hdata hfits hp hreport.plain
        rw [List.filter_cons]
        cases hname : inside blob.thread with
        | true =>
            rw [if_pos rfl]
            exact ih (alike_apply_inside h hcounters hdata hfits
              (hreport.requested hname)) hp'
              (counters_apply_plain hdata (hcounters ▸ hfits) hq hreport.plain)
              hmore
        | false =>
            rw [if_neg Bool.false_ne_true]
            exact ih (alike_apply_outside h hname hdata hfits
              (hreport.others hname)) hp' hq hmore
      · -- Without counters, both data refuse the same blobs.
        have hrefused : (q.apply blob).refusal ≠ none := by
          intro hnone
          rcases refusal_apply_eq_none_iff.mp hnone with ⟨d, hdata, hfits⟩
          exact haccepted
            (refusal_apply_eq_none_iff.mpr ⟨d, hdata, hcounters ▸ hfits⟩)
        rw [accepted_cons_of_refused haccepted] at hreports
        rw [receive_cons_of_refused haccepted, List.filter_cons]
        split
        · rw [receive_cons_of_refused hrefused]
          exact ih h hp hq hreports
        · exact ih h hp hq hreports

end Records

/-! ## Processes -/

/-- No process outside reports anything of a key that is requested inside. -/
def KeysApart (inside : String × UInt64 → Bool) (reports : List Report) :
    Prop :=
  ∀ a ∈ asked reports, inside a.thread.process = true →
    ∀ report ∈ reports, inside report.thread.process = false →
      ∀ r ∈ report.data.records, r.key? ≠ some a.key

instance (inside : String × UInt64 → Bool) (reports : List Report) :
    Decidable (KeysApart inside reports) :=
  inferInstanceAs (Decidable (∀ a ∈ asked reports, _ → _))

/-- For the threads of some processes, everything that is visited is what would
be if only their blobs had arrived. -/
def Undisturbed (inside : String × UInt64 → Bool) (arrivals : List Blob) :
    Prop :=
  ∀ t, inside t.process = true → ∀ interval,
    (receive ∅ arrivals).visitsIn t interval =
      (receive ∅ (arrivals.filter fun blob =>
        inside blob.thread.process)).visitsIn t interval

def sharedKey : List Blob :=
  let header (pid : UInt64) : BlobHeader :=
    ⟨0, 1, collectorId, .ofName ⟨"a", pid, none, none⟩, ⟨0, 1⟩⟩
  [Data.toBlob ⟨[.request ⟨.executeKernel, 10, 1, 2, 3, 0⟩], [7, 8, 0]⟩
      (header 2),
    Data.toBlob ⟨[.request ⟨.executeKernel, 15, 1, 2, 3, 0⟩], [9, 0]⟩
      (header 1),
    Data.toBlob ⟨[.completedExec ⟨1, 2, 3, 20, 30, "f", ⟨1, 1, 1⟩, ⟨8, 8, 1⟩,
      .none, 16, 0, 0, 0⟩], []⟩ (header 2)]

/-- The completion that one process reports completes the request of another. -/
theorem processes_share_keys :
    (accepted ∅ sharedKey).map Report.blob = sharedKey ∧
      (∀ report ∈ accepted ∅ sharedKey, ∀ r ∈ report.data.records,
        r.key? ≠ none) ∧
      ¬Undisturbed (fun process => process = ("a", 1)) sharedKey := by
  refine ⟨by decide +kernel, by decide +kernel, ?_⟩
  intro h
  have hvisits := h ⟨"a", 1, none, none⟩ rfl Interval.full
  have hlength := congrArg (fun v => v.kernels.length) hvisits
  revert hlength
  decide +kernel

/-- Some processes among others: what is visited of their threads is what it
would be without the others, provided that no other process uses the key of a
request of theirs, and that no sampling is configured. -/
theorem processes_do_not_interfere (inside : String × UInt64 → Bool)
    (arrivals : List Blob)
    (hplain : ∀ report ∈ accepted ∅ arrivals, ∀ r ∈ report.data.records,
      r.counters? = none)
    (hkeys : KeysApart inside (accepted ∅ arrivals)) :
    Undisturbed inside arrivals := by
  have halike : Alike (fun t => inside t.process)
      (fun key => ∃ a ∈ asked (accepted ∅ arrivals),
        inside a.thread.process = true ∧ a.key = key)
      (receive ∅ arrivals)
      (receive ∅ (arrivals.filter fun blob => inside blob.thread.process)) := by
    apply Alike.receive alike_empty rfl rfl
    intro report hreport
    constructor
    · exact hplain report hreport
    · intro hinside r hr request hrequest
      refine ⟨⟨report.thread,
        (report.data.stackTrace? request.callSite).getD [], request⟩,
        ?_, hinside, rfl⟩
      refine List.mem_flatMap.mpr ⟨report, hreport, ?_⟩
      refine List.mem_filterMap.mpr ⟨r, hr, ?_⟩
      unfold askedBy
      rw [hrequest]
      rfl
    · intro houtside r hr key hkey hmine
      rcases hmine with ⟨a, ha, hinside, heq⟩
      exact hkeys a ha hinside report hreport houtside r hr (heq ▸ hkey)
  intro t ht interval
  rw [visitsIn_eq, visitsIn_eq, halike.visits t ht]

def interleaved : List Blob :=
  let header (pid : UInt64) : BlobHeader :=
    ⟨0, 1, collectorId, .ofName ⟨"a", pid, none, none⟩, ⟨0, 1⟩⟩
  let completed (key : UInt32) : Record :=
    .completedExec ⟨1, 2, key, 20, 30, "f", ⟨1, 1, 1⟩, ⟨8, 8, 1⟩, .none, 16,
      0, 0, 0⟩
  [Data.toBlob ⟨[.request ⟨.executeKernel, 10, 1, 2, 3, 0⟩], [7, 8, 0]⟩
      (header 1),
    Data.toBlob ⟨[completed 4], []⟩ (header 2),
    Data.toBlob ⟨[.request ⟨.executeKernel, 15, 1, 2, 4, 0⟩], [9, 0]⟩
      (header 2),
    Data.toBlob ⟨[completed 3], []⟩ (header 1)]

theorem processes_do_not_interfere_interleaved :
    (receive ∅ interleaved).pendingRequests = 0 ∧
      Undisturbed (fun process => process = ("a", 1)) interleaved ∧
      Undisturbed (fun process => process = ("a", 2)) interleaved := by
  refine ⟨by decide +kernel, ?_, ?_⟩
  · exact processes_do_not_interfere _ interleaved (by decide +kernel)
      (by decide +kernel)
  · exact processes_do_not_interfere _ interleaved (by decide +kernel)
      (by decide +kernel)

end PerformanceData
end Cuda
end CudaProfile
