import CudaProfile.Proofs.Cuda.Format
import CudaProfile.Proofs.Cuda.Run
import CudaProfile.Proofs.Outcome
/-!
# A blob counts as a whole or not at all

All records of a blob are checked before the first of them counts, and the check
knows of the state only how many counters there are. It is right nevertheless:
with every record the state has as many counters as the check supposes, so that
no record is refused later on.
-/

namespace CudaProfile

namespace Cuda

/-! ## Malformed records -/

/-- A record that does not fit the pool of stack traces it comes with or the
number of counters there are. -/
inductive Malformed (pool : List Address) (counters : Nat) : Record → Prop
  | request {r : Request} (h : pool.length < r.callSite.toNat) :
      Malformed pool counters (.request r)
  | overflowSamples {s : OverflowSamples}
      (h : s.counts.length ≠ s.pcs.length * counters) :
      Malformed pool counters (.overflowSamples s)
  | periodicSamples {s : PeriodicSamples} (h : s.counts.length ≠ counters) :
      Malformed pool counters (.periodicSamples s)

section Malformed

variable {pool : List Address} {counters : Nat}

theorem malformed_request_iff {r : Request} :
    Malformed pool counters (.request r) ↔
      pool.length < r.callSite.toNat :=
  ⟨fun h => by cases h; assumption, .request⟩

theorem malformed_overflowSamples_iff {s : OverflowSamples} :
    Malformed pool counters (.overflowSamples s) ↔
      s.counts.length ≠ s.pcs.length * counters :=
  ⟨fun h => by cases h; assumption, .overflowSamples⟩

theorem malformed_periodicSamples_iff {s : PeriodicSamples} :
    Malformed pool counters (.periodicSamples s) ↔
      s.counts.length ≠ counters :=
  ⟨fun h => by cases h; assumption, .periodicSamples⟩

end Malformed

def Record.counters? : Record → Option (List CounterDescription)
  | .samplingConfig c => some c.events
  | _ => none

/-- The counters after records: the first that are any among those known before
and those of the sampling configurations. -/
def configured (known : List CounterDescription) (records : List Record) :
    List CounterDescription :=
  ((known :: records.filterMap Record.counters?).find? fun counters =>
    !counters.isEmpty).getD []

theorem configured_nil (known : List CounterDescription) :
    configured known [] = known := by
  cases known <;> rfl

theorem configured_cons (known : List CounterDescription) (r : Record)
    (rest : List Record) :
    configured known (r :: rest) = configured (configured known [r]) rest := by
  cases known with
  | cons counter more =>
      rfl
  | nil =>
      cases hcounters : r.counters? with
      | none =>
          simp [configured, hcounters]
      | some counters =>
          cases counters with
          | nil =>
              simp [configured, hcounters]
          | cons counter more =>
              simp [configured, hcounters]

theorem configured_of_counters?_eq_none (known : List CounterDescription)
    {r : Record} (h : r.counters? = none) : configured known [r] = known := by
  unfold configured
  rw [List.filterMap_cons_none h]
  exact configured_nil known

def Fits (known : List CounterDescription)
    (entries : List (Record × List Address)) : Prop :=
  ∀ before e after, entries = before ++ e :: after →
    ¬Malformed e.2 (configured known (before.map Prod.fst)).length e.1

def Data.pooled (d : Data) : List (Record × List Address) :=
  d.records.map fun r => (r, d.stackTraces)

theorem fits_nil (known : List CounterDescription) : Fits known [] := by
  intro before e after h
  simp at h

theorem fits_cons {known : List CounterDescription}
    {e : Record × List Address} {rest : List (Record × List Address)} :
    Fits known (e :: rest) ↔
      ¬Malformed e.2 known.length e.1 ∧
        Fits (configured known [e.1]) rest := by
  constructor
  · intro h
    constructor
    · have hfirst := h [] e rest rfl
      rw [List.map_nil, configured_nil] at hfirst
      exact hfirst
    · intro before other after hrest
      have hlater := h (e :: before) other after (by rw [hrest]; rfl)
      rw [List.map_cons, configured_cons] at hlater
      exact hlater
  · intro h before other after hentries
    cases before with
    | nil =>
        cases hentries
        rw [List.map_nil, configured_nil]
        exact h.1
    | cons first before =>
        cases hentries
        rw [List.map_cons, configured_cons]
        exact h.2 before other after rfl

theorem fits_append {known : List CounterDescription}
    {before after : List (Record × List Address)} :
    Fits known (before ++ after) ↔
      Fits known before ∧
        Fits (configured known (before.map Prod.fst)) after := by
  induction before generalizing known with
  | nil =>
      rw [List.map_nil, configured_nil]
      exact ⟨fun h => ⟨fits_nil known, h⟩, fun h => h.2⟩
  | cons e rest ih =>
      rw [List.cons_append, fits_cons, fits_cons, ih, List.map_cons,
        configured_cons known e.1 (rest.map Prod.fst), and_assoc]

namespace PerformanceData

/-! ## The check -/

theorem check_eq_ok_iff {d : Data} {counters : Nat} {r : Record} :
    check d counters r = .ok () ↔ ¬Malformed d.stackTraces counters r := by
  cases r with
  | request r =>
      rw [malformed_request_iff, Nat.not_lt]
      change (traceOf d r).map _ = _ ↔ _
      unfold traceOf Data.stackTrace?
      by_cases h : r.callSite.toNat ≤ d.stackTraces.length
      · simp [h, Except.map]
      · simp [h, Except.map]
  | overflowSamples s =>
      rw [malformed_overflowSamples_iff, not_not]
      change (if s.counts.length = s.pcs.length * counters then _ else _) =
        _ ↔ _
      split
      · next h =>
        exact iff_of_true rfl h
      · next h =>
        exact iff_of_false (by intro heq; cases heq) h
  | periodicSamples s =>
      rw [malformed_periodicSamples_iff, not_not]
      change (if s.counts.length = counters then _ else _) = _ ↔ _
      split
      · next h =>
        exact iff_of_true rfl h
      · next h =>
        exact iff_of_false (by intro heq; cases heq) h
  | _ =>
      exact iff_of_true rfl fun h => by cases h

theorem countersAfter_eq (known : List CounterDescription) (r : Record) :
    countersAfter known.length r = (configured known [r]).length := by
  cases r with
  | samplingConfig c =>
      cases known with
      | nil =>
          cases hevents : c.events with
          | nil =>
              simp [countersAfter, configured, Record.counters?, hevents]
          | cons event rest =>
              simp [countersAfter, configured, Record.counters?, hevents]
      | cons counter rest =>
          simp [countersAfter, configured]
  | _ =>
      rw [configured_of_counters?_eq_none known rfl]
      rfl

theorem checkAll_eq_ok_iff {d : Data} {known : List CounterDescription}
    {records : List Record} :
    checkAll d known.length records = .ok () ↔
      Fits known (records.map fun r => (r, d.stackTraces)) := by
  induction records generalizing known with
  | nil =>
      exact iff_of_true rfl (fits_nil known)
  | cons r rest ih =>
      rw [List.map_cons, fits_cons, ← ih, ← countersAfter_eq, checkAll]
      cases hcheck : check d known.length r with
      | ok _ =>
          exact (and_iff_right (check_eq_ok_iff.mp hcheck)).symm
      | error error =>
          have hmalformed : ¬¬Malformed d.stackTraces known.length r := by
            rw [← check_eq_ok_iff, hcheck]
            intro heq
            cases heq
          exact iff_of_false (by intro heq; cases heq)
            fun h => hmalformed h.1

/-! ## Records that count -/

theorem refusal_applyRecord_iff {name : ThreadName} {d : Data}
    {p : PerformanceData} {r : Record} :
    (applyRecord name d p r).refusal ≠ none ↔
      Malformed d.stackTraces p.counters.length r := by
  rw [← not_iff_not, not_not, ← check_eq_ok_iff]
  cases r with
  | request r =>
      change (Outcome.orElse p ((traceOf d r).map _)).refusal = none ↔
        (traceOf d r).map _ = _
      cases traceOf d r with
      | ok trace =>
          exact iff_of_true rfl rfl
      | error error =>
          exact iff_of_false (by intro h; cases h) (by intro h; cases h)
  | overflowSamples s =>
      simp only [applyRecord]
      cases check d p.counters.length (.overflowSamples s) with
      | ok _ =>
          exact iff_of_true rfl rfl
      | error error =>
          exact iff_of_false (by intro h; cases h) (by intro h; cases h)
  | periodicSamples s =>
      simp only [applyRecord]
      cases check d p.counters.length (.periodicSamples s) with
      | ok _ =>
          exact iff_of_true rfl rfl
      | error error =>
          exact iff_of_false (by intro h; cases h) (by intro h; cases h)
  | _ =>
      exact iff_of_true rfl rfl

theorem counters_applyRecord (name : ThreadName) (d : Data)
    (p : PerformanceData) (r : Record) :
    (applyRecord name d p r).state.counters = configured p.counters [r] := by
  cases r with
  | samplingConfig c =>
      cases hcounters : p.counters with
      | nil =>
          cases hevents : c.events with
          | nil =>
              simp [applyRecord, Outcome.done, configured, Record.counters?,
                hcounters, hevents]
          | cons event rest =>
              simp [applyRecord, Outcome.done, configured, Record.counters?,
                hcounters, hevents]
      | cons counter rest =>
          simp [applyRecord, Outcome.done, configured, hcounters]
  | request r =>
      rw [configured_of_counters?_eq_none p.counters rfl]
      change (Outcome.orElse p ((traceOf d r).map _)).state.counters = _
      cases traceOf d r with
      | ok trace =>
          exact counters_enqueue p name trace r
      | error error =>
          rfl
  | completedExec e =>
      rw [configured_of_counters?_eq_none p.counters rfl]
      exact counters_complete p e.key (.exec e)
  | completedXfer x =>
      rw [configured_of_counters?_eq_none p.counters rfl]
      exact counters_complete p x.key (.xfer x)
  | overflowSamples s =>
      rw [configured_of_counters?_eq_none p.counters rfl]
      simp only [applyRecord]
      cases check d p.counters.length (.overflowSamples s) <;> rfl
  | periodicSamples s =>
      rw [configured_of_counters?_eq_none p.counters rfl]
      simp only [applyRecord]
      cases check d p.counters.length (.periodicSamples s) <;> rfl
  | _ =>
      rw [configured_of_counters?_eq_none p.counters rfl]
      rfl

theorem counters_forEach {name : ThreadName} {d : Data}
    {p q : PerformanceData} {records : List Record}
    (h : Outcome.forEach (applyRecord name d) p records = .done q) :
    q.counters = configured p.counters records := by
  induction records generalizing p with
  | nil =>
      cases h
      exact (configured_nil _).symm
  | cons r rest ih =>
      by_cases hrefusal : (applyRecord name d p r).refusal = none
      · have hdone := Outcome.eq_done_iff.mpr ⟨rfl, hrefusal⟩
        rw [Outcome.forEach_cons_of_done hdone] at h
        rw [ih h, counters_applyRecord, ← configured_cons p.counters r rest]
      · rw [Outcome.forEach_cons_of_refused hrefusal] at h
        exact absurd (Outcome.eq_done_iff.mp h).2 hrefusal

theorem refusal_forEach_eq_none_iff {name : ThreadName} {d : Data}
    {p : PerformanceData} {records : List Record} :
    (Outcome.forEach (applyRecord name d) p records).refusal = none ↔
      Fits p.counters (records.map fun r => (r, d.stackTraces)) := by
  induction records generalizing p with
  | nil =>
      exact iff_of_true rfl (fits_nil p.counters)
  | cons r rest ih =>
      have hrefused : (applyRecord name d p r).refusal ≠ none ↔
          Malformed d.stackTraces p.counters.length r :=
        refusal_applyRecord_iff
      rw [List.map_cons, fits_cons, ← hrefused]
      by_cases hrefusal : (applyRecord name d p r).refusal = none
      · have hdone := Outcome.eq_done_iff.mpr ⟨rfl, hrefusal⟩
        rw [Outcome.forEach_cons_of_done hdone, ih, counters_applyRecord]
        exact (and_iff_right (not_not.mpr hrefusal)).symm
      · rw [Outcome.forEach_cons_of_refused hrefusal]
        exact iff_of_false hrefusal fun h => h.1 hrefusal

/-! ## Blobs that count -/

theorem counters_keep (p : PerformanceData) (blob : Blob) :
    (p.keep blob).counters = p.counters :=
  rfl

theorem checkAll_pooled_iff {p : PerformanceData} {d : Data} :
    checkAll d p.counters.length d.records = .ok () ↔
      Fits p.counters d.pooled :=
  checkAll_eq_ok_iff

theorem apply_of_fits {p : PerformanceData} {blob : Blob} {d : Data}
    (hdata : Data.ofBlob blob = .ok d) (hfits : Fits p.counters d.pooled) :
    (p.apply blob).refusal = none ∧
      Outcome.forEach (applyRecord blob.thread d) (p.keep blob) d.records =
        p.apply blob := by
  have hrefusal : (Outcome.forEach (applyRecord blob.thread d) (p.keep blob)
      d.records).refusal = none :=
    refusal_forEach_eq_none_iff.mpr hfits
  have happly : p.apply blob =
      Outcome.forEach (applyRecord blob.thread d) (p.keep blob) d.records := by
    unfold apply
    rw [hdata]
    simp only [checkAll_pooled_iff.mpr hfits]
  rw [happly]
  exact ⟨hrefusal, rfl⟩

/-- A blob is refused before any of it counts. -/
theorem apply_of_not_fits {p : PerformanceData} {blob : Blob}
    (h : ∀ d, Data.ofBlob blob = .ok d → ¬Fits p.counters d.pooled) :
    ∃ error, p.apply blob = .refused p error := by
  unfold apply
  cases hdata : Data.ofBlob blob with
  | error error =>
      exact ⟨error, rfl⟩
  | ok d =>
      simp only
      cases hcheck : checkAll d p.counters.length d.records with
      | error error =>
          exact ⟨error, rfl⟩
      | ok _ =>
          exact absurd (checkAll_pooled_iff.mp hcheck) (h d hdata)

theorem refusal_apply_eq_none_iff {p : PerformanceData} {blob : Blob} :
    (p.apply blob).refusal = none ↔
      ∃ d, Data.ofBlob blob = .ok d ∧ Fits p.counters d.pooled := by
  constructor
  · intro h
    by_contra hnone
    rcases apply_of_not_fits fun d hdata hfits => hnone ⟨d, hdata, hfits⟩ with
      ⟨error, happly⟩
    rw [happly] at h
    cases h
  · intro h
    rcases h with ⟨d, hdata, hfits⟩
    exact (apply_of_fits hdata hfits).1

theorem apply_of_refused {p : PerformanceData} {blob : Blob}
    (h : (p.apply blob).refusal ≠ none) :
    ∃ error, p.apply blob = .refused p error := by
  apply apply_of_not_fits
  intro d hdata hfits
  exact h (refusal_apply_eq_none_iff.mpr ⟨d, hdata, hfits⟩)

theorem accepted_cons_of_accepted {p : PerformanceData} {blob : Blob} {d : Data}
    (hdata : Data.ofBlob blob = .ok d) (h : (p.apply blob).refusal = none)
    (rest : List Blob) :
    p.accepted (blob :: rest) =
      ⟨blob, d⟩ :: (p.apply blob).state.accepted rest := by
  have hreport : p.report? blob = some ⟨blob, d⟩ := by
    unfold report?
    rw [hdata, h]
  rw [accepted, hreport]
  rfl

theorem accepted_cons_of_refused {p : PerformanceData} {blob : Blob}
    (h : (p.apply blob).refusal ≠ none) (rest : List Blob) :
    p.accepted (blob :: rest) = p.accepted rest := by
  rcases apply_of_refused h with ⟨error, happly⟩
  have hreport : p.report? blob = none := by
    unfold report?
    rw [happly]
    cases Data.ofBlob blob with
    | error _ =>
        rfl
    | ok _ =>
        rfl
  rw [accepted, hreport, happly]
  rfl

theorem receive_cons_of_refused {p : PerformanceData} {blob : Blob}
    (h : (p.apply blob).refusal ≠ none) (rest : List Blob) :
    p.receive (blob :: rest) = p.receive rest := by
  rcases apply_of_refused h with ⟨error, happly⟩
  change (p.apply blob).state.receive rest = _
  rw [happly]
  rfl

end PerformanceData
end Cuda
end CudaProfile
