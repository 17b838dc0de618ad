import CudaProfile.Proofs.Cuda.Sampling
/-!
# Overflow counts are conserved

A thread's table of overflow samples is thrown away and built anew whenever it
has not as many series as there are counters. That happens to a table without
series only: as soon as it has any, the counters are known and stay the same.
The records before then have no counts, so that nothing is lost.
-/

namespace CudaProfile
namespace Cuda

open Std Lexicographic

/-! ## The events that records tell of -/

/-- The events of one counter at an address, where counts come in groups of `n`,
a group for each program counter. A count that is missing is zero. -/
def eventsAt (n counter : Nat) (address : Address) (pcs : List Address)
    (counts : List UInt64) : Nat :=
  ((pcs.zipIdx.filter fun e => e.1 = address).map fun e =>
    (counts[e.2 * n + counter]?.getD 0).toNat).sum

def eventsOf (n : Nat) (records : List Record) (counter : Nat)
    (address : Address) : Nat :=
  (records.map fun
    | .overflowSamples s => eventsAt n counter address s.pcs s.counts
    | _ => 0).sum

section Events

variable (n counter : Nat) (address : Address)

theorem eventsAt_cons (pc : Address) (pcs : List Address)
    (counts : List UInt64) :
    eventsAt n counter address (pc :: pcs) counts =
      (if address = pc then (counts[counter]?.getD 0).toNat else 0) +
        eventsAt n counter address pcs (counts.drop n) := by
  have hlater : ((pcs.zipIdx 1).filter fun e => e.1 = address).map
      (fun e => (counts[e.2 * n + counter]?.getD 0).toNat) =
        (pcs.zipIdx.filter fun e => e.1 = address).map fun e =>
          ((counts.drop n)[e.2 * n + counter]?.getD 0).toNat := by
    rw [List.zipIdx_succ, List.filter_map, List.map_map]
    apply List.map_congr_left
    intro e _
    have hplace : (e.2 + 1) * n + counter = n + (e.2 * n + counter) := by
      rw [Nat.succ_mul]
      omega
    simp [hplace]
  unfold eventsAt
  rw [List.zipIdx_cons, ← hlater]
  by_cases h : address = pc
  · simp [h]
  · simp [h, Ne.symm h]

theorem eventsAt_of_counts_nil (pcs : List Address) :
    eventsAt n counter address pcs [] = 0 := by
  simp [eventsAt]

theorem eventsOf_append (records later : List Record) :
    eventsOf n (records ++ later) counter address =
      eventsOf n records counter address + eventsOf n later counter address := by
  unfold eventsOf
  rw [List.map_append, List.sum_append]

theorem eventsOf_overflowSamples (s : OverflowSamples) :
    eventsOf n [.overflowSamples s] counter address =
      eventsAt n counter address s.pcs s.counts :=
  rfl

end Events

/-! ## Series and tables that hold events -/

/-- A series has an entry at each address with any events, and it is their
number as a word. -/
def Tallies (events : Address → Nat) (s : OverflowSeries) : Prop :=
  ∀ address, s.counts.get? address =
    if events address = 0 then none else some (UInt64.ofNat (events address))

theorem Tallies.count_eq {events : Address → Nat} {s : OverflowSeries}
    (h : Tallies events s) (address : Address) :
    s.count address = UInt64.ofNat (events address) := by
  unfold OverflowSeries.count
  rw [h]
  by_cases hzero : events address = 0
  · rw [if_pos hzero, hzero]
    rfl
  · rw [if_neg hzero]
    rfl

theorem Tallies.toNat_count {events : Address → Nat} {s : OverflowSeries}
    (h : Tallies events s) {address : Address}
    (hsmall : events address < 2 ^ 64) :
    (s.count address).toNat = events address := by
  rw [h.count_eq]
  exact UInt64.toNat_ofNat_of_lt hsmall

theorem Tallies.get?_ne_zero {events : Address → Nat} {s : OverflowSeries}
    (h : Tallies events s) {address : Address}
    (hsmall : events address < 2 ^ 64) : s.counts.get? address ≠ some 0 := by
  intro hzero
  have hcount : (s.count address).toNat = 0 := by
    unfold OverflowSeries.count
    rw [hzero]
    rfl
  rw [h.toNat_count hsmall] at hcount
  rw [h, if_pos hcount] at hzero
  cases hzero

theorem tallies_new (name : String) :
    Tallies (fun _ => 0) (.new name) :=
  fun _ => rfl

theorem Tallies.add {events : Address → Nat} {s : OverflowSeries}
    (h : Tallies events s) (pc : Address) (count : UInt64) :
    Tallies
      (fun address =>
        events address + if address = pc then count.toNat else 0)
      (if count > 0 then s.add pc count else s) := by
  intro address
  beta_reduce
  by_cases hcount : count > 0
  · have hpositive : 0 < count.toNat := UInt64.lt_iff_toNat_lt.mp hcount
    rw [if_pos hcount]
    change (s.counts.insert pc (s.count pc + count)).get? address = _
    rw [OrderedMap.get?_insert]
    by_cases haddress : address = pc
    · -- Words wrap around as remainders do, so the sum may be of any size.
      have hsome : events pc + count.toNat ≠ 0 := by
        omega
      rw [if_pos haddress, if_pos haddress, haddress, if_neg hsome,
        h.count_eq, UInt64.ofNat_add, UInt64.ofNat_toNat]
    · rw [if_neg haddress, if_neg haddress, h, Nat.add_zero]
  · have hzero : count.toNat = 0 := by
      have hnot := mt UInt64.lt_iff_toNat_lt.mpr hcount
      simpa using hnot
    rw [if_neg hcount, h, hzero, ite_self, Nat.add_zero]

structure TableOf (counters : List CounterDescription)
    (events : Nat → Address → Nat) (table : List OverflowSeries) : Prop where
  names : table.map OverflowSeries.name = counters.map CounterDescription.name
  tallies : ∀ c series, table[c]? = some series → Tallies (events c) series

section Tables

variable {counters : List CounterDescription} {events : Nat → Address → Nat}
  {table : List OverflowSeries}

theorem TableOf.length_eq (h : TableOf counters events table) :
    table.length = counters.length := by
  have hlengths := congrArg List.length h.names
  rw [List.length_map, List.length_map] at hlengths
  exact hlengths

theorem TableOf.congr {events' : Nat → Address → Nat}
    (h : TableOf counters events table)
    (hsame : ∀ c < counters.length, ∀ address,
      events c address = events' c address) :
    TableOf counters events' table := by
  refine ⟨h.names, ?_⟩
  intro c series hseries
  have hc : c < counters.length :=
    h.length_eq ▸ (List.getElem?_eq_some_iff.mp hseries).1
  rw [← funext (hsame c hc)]
  exact h.tallies c series hseries

theorem tableOf_new (counters : List CounterDescription) :
    TableOf counters (fun _ _ => 0)
      (counters.map fun counter => .new counter.name) := by
  constructor
  · rw [List.map_map]
    rfl
  · intro c series hseries
    rw [List.getElem?_map] at hseries
    rcases Option.map_eq_some_iff.mp hseries with ⟨counter, _, rfl⟩
    exact tallies_new counter.name

end Tables

namespace PerformanceData

/-! ## Adding samples to a table -/

theorem getElem?_addCounts (pc : Address) (table : List OverflowSeries)
    (row : List UInt64) (c : Nat) :
    (addCounts pc table row)[c]? =
      table[c]?.map fun series =>
        if row[c]?.getD 0 > 0 then series.add pc (row[c]?.getD 0)
        else series := by
  induction table generalizing row c with
  | nil =>
      rfl
  | cons series rest ih =>
      cases row with
      | nil =>
          change (series :: rest)[c]? = _
          simp
      | cons count row =>
          cases c with
          | zero =>
              rfl
          | succ c =>
              exact ih row c

theorem names_addCounts (pc : Address) (table : List OverflowSeries)
    (row : List UInt64) :
    (addCounts pc table row).map OverflowSeries.name =
      table.map OverflowSeries.name := by
  induction table generalizing row with
  | nil =>
      rfl
  | cons series rest ih =>
      cases row with
      | nil =>
          rfl
      | cons count row =>
          unfold addCounts
          rw [List.map_cons, List.map_cons, ih]
          split <;> rfl

section Tables

variable {counters : List CounterDescription} {events : Nat → Address → Nat}
  {table : List OverflowSeries}

theorem tableOf_addCounts (h : TableOf counters events table) (pc : Address)
    (row : List UInt64) :
    TableOf counters
      (fun c address => events c address +
        if address = pc then (row[c]?.getD 0).toNat else 0)
      (addCounts pc table row) := by
  constructor
  · rw [names_addCounts, h.names]
  · intro c series hseries
    rw [getElem?_addCounts] at hseries
    rcases Option.map_eq_some_iff.mp hseries with ⟨before, hbefore, rfl⟩
    exact (h.tallies c before hbefore).add pc _

theorem tableOf_addGroups (h : TableOf counters events table)
    (pcs : List Address) (counts : List UInt64) :
    TableOf counters
      (fun c address => events c address +
        eventsAt counters.length c address pcs counts)
      (addGroups table pcs counts) := by
  induction pcs generalizing events table counts with
  | nil =>
      exact h
  | cons pc pcs ih =>
      have hfirst := tableOf_addCounts h pc (counts.take table.length)
      have hall := ih hfirst (counts.drop table.length)
      unfold addGroups
      apply hall.congr
      intro c hc address
      rw [h.length_eq, List.getElem?_take_of_lt hc, eventsAt_cons,
        Nat.add_assoc]

theorem addGroups_nil (pcs : List Address) (counts : List UInt64) :
    addGroups [] pcs counts = [] := by
  induction pcs generalizing counts with
  | nil =>
      rfl
  | cons pc pcs ih =>
      exact ih _

theorem tableOf_addOverflow (h : TableOf counters events table)
    (s : OverflowSamples) :
    TableOf counters
      (fun c address => events c address +
        eventsAt counters.length c address s.pcs s.counts)
      (addOverflow counters s table) := by
  unfold addOverflow
  rw [if_pos h.length_eq]
  exact tableOf_addGroups h s.pcs s.counts

end Tables

theorem tableOf_addOverflow_nil {counters : List CounterDescription}
    (h : counters ≠ []) (s : OverflowSamples) :
    TableOf counters
      (fun c address => eventsAt counters.length c address s.pcs s.counts)
      (addOverflow counters s []) := by
  have hshorter : ([] : List OverflowSeries).length ≠ counters.length :=
    fun heq => h (List.length_eq_zero_iff.mp heq.symm)
  unfold addOverflow
  rw [if_neg hshorter]
  apply (tableOf_addGroups (tableOf_new counters) s.pcs s.counts).congr
  intro c _ address
  exact Nat.zero_add _

/-! ## Runs -/

/-- A thread has no table as long as no events were reported; with a table of
series the counters are known, and it holds the events. -/
inductive Tallied (records : List Record) (counters : List CounterDescription)
    (table : List OverflowSeries) : Prop
  | blank (htable : table = [])
      (hevents : ∀ n c address, eventsOf n records c address = 0)
  | table (hcounters : counters ≠ [])
      (htable : TableOf counters (eventsOf counters.length records) table)

section Tallied

variable {records : List Record} {counters : List CounterDescription}
  {table : List OverflowSeries}

theorem Tallied.other (h : Tallied records counters table) {record : Record}
    (hnone : ∀ n c address, eventsOf n [record] c address = 0) :
    Tallied (records ++ [record]) (configured counters [record]) table := by
  have hsame : ∀ n c address, eventsOf n (records ++ [record]) c address =
      eventsOf n records c address := by
    intro n c address
    rw [eventsOf_append, hnone, Nat.add_zero]
  cases h with
  | blank htable hevents =>
      refine .blank htable ?_
      intro n c address
      rw [hsame, hevents]
  | table hcounters htable =>
      rw [configured_of_ne_nil hcounters]
      refine .table hcounters (htable.congr ?_)
      intro c _ address
      exact (hsame _ c address).symm

theorem Tallied.overflow (h : Tallied records counters table)
    {s : OverflowSamples}
    (hshape : s.counts.length = s.pcs.length * counters.length) :
    Tallied (records ++ [.overflowSamples s]) counters
      (addOverflow counters s table) := by
  cases h with
  | blank htable hevents =>
      -- Without counters the samples have no counts, and there is still no
      -- table. With counters it is built anew, and no series are lost by it.
      rw [htable]
      by_cases hcounters : counters = []
      · rw [hcounters] at hshape ⊢
        have hcounts : s.counts = [] := List.length_eq_zero_iff.mp hshape
        refine .blank (addGroups_nil s.pcs s.counts) ?_
        intro n c address
        rw [eventsOf_append, hevents, eventsOf_overflowSamples, hcounts,
          eventsAt_of_counts_nil]
      · refine .table hcounters ((tableOf_addOverflow_nil hcounters s).congr ?_)
        intro c _ address
        rw [eventsOf_append, hevents, eventsOf_overflowSamples, Nat.zero_add]
  | table hcounters htable =>
      refine .table hcounters ((tableOf_addOverflow htable s).congr ?_)
      intro c _ address
      rw [eventsOf_append, eventsOf_overflowSamples]

end Tallied

theorem tallied_receive (arrivals : List Blob) (name : ThreadName) :
    Tallied (recordsOf name (told (accepted ∅ arrivals)))
      (receive ∅ arrivals).counters ((receive ∅ arrivals).overflow name) := by
  apply samples_induction (t := name) (motive := fun history counters samples =>
    Tallied (recordsOf name history) counters samples.overflow)
  · exact .blank rfl fun n c address => rfl
  · intro pool history counters samples other record hshape h
    rw [recordsOf_append, recordsOf_singleton]
    by_cases hname : other = name
    · rw [if_pos hname, if_pos hname]
      cases record with
      | overflowSamples s =>
          rw [malformed_overflowSamples_iff, not_not] at hshape
          rw [configured_of_counters?_eq_none counters rfl]
          exact h.overflow hshape
      | _ =>
          exact h.other fun n c address => rfl
    · rw [if_neg hname, if_neg hname, List.append_nil]
      cases h with
      | blank htable hevents =>
          exact .blank htable hevents
      | table hcounters htable =>
          rw [configured_of_ne_nil hcounters]
          exact .table hcounters htable

/-- Whatever blobs arrive, a table with any series has one for each counter,
and they count all events of the accepted records; without a table there were
no events. -/
theorem overflow_counts_are_conserved (arrivals : List Blob)
    (name : ThreadName) :
    let p := receive ∅ arrivals
    let events := eventsOf p.counters.length
      (recordsOf name (told (accepted ∅ arrivals)))
    (p.overflow name ≠ [] →
      (p.overflow name).length = p.counters.length ∧
      ∀ c counter, p.counters[c]? = some counter →
        ∃ series, (p.overflow name)[c]? = some series ∧
          series.name = counter.name ∧
          ∀ address, events c address < 2 ^ 64 →
            (series.count address).toNat = events c address ∧
            series.counts.get? address ≠ some 0) ∧
    (p.overflow name = [] →
      ∀ c < p.counters.length, ∀ address, events c address = 0) := by
  intro p events
  cases tallied_receive arrivals name with
  | blank htable hevents =>
      exact ⟨fun h => absurd htable h, fun _ c _ => hevents _ c⟩
  | table hcounters htable =>
      have hlength := htable.length_eq
      refine ⟨fun _ => ⟨hlength, ?_⟩, ?_⟩
      · intro c counter hcounter
        have hnamed : ((p.overflow name).map OverflowSeries.name)[c]? =
            some counter.name := by
          rw [htable.names, List.getElem?_map, hcounter]
          rfl
        rw [List.getElem?_map] at hnamed
        rcases Option.map_eq_some_iff.mp hnamed with
          ⟨series, hseries, hname⟩
        have htallies := htable.tallies c series hseries
        refine ⟨series, hseries, hname, ?_⟩
        intro address hsmall
        exact ⟨htallies.toNat_count hsmall, htallies.get?_ne_zero hsmall⟩
      · intro hnone
        rw [hnone] at hlength
        exact absurd (List.length_eq_zero_iff.mp hlength.symm) hcounters

def lateOverflow : List Blob :=
  let header : BlobHeader :=
    ⟨0, 0, collectorId, .ofName ⟨"a", 1, none, none⟩, ⟨0, 1⟩⟩
  let two : Record := .samplingConfig
    ⟨10, [⟨"inst_executed", .count, 1000⟩, ⟨"cycles", .count, 0⟩]⟩
  let other : Record := .samplingConfig ⟨20, [⟨"stalls", .count, 0⟩]⟩
  [Data.toBlob ⟨[.overflowSamples ⟨0, 1, [7, 7], []⟩], []⟩ header,
    Data.toBlob ⟨[two, .overflowSamples ⟨1, 2, [7, 8, 7], [3, 0, 1, 4, 2, 0]⟩],
      []⟩ header,
    Data.toBlob ⟨[other, two, .overflowSamples ⟨2, 3, [7], [1, 5]⟩], []⟩ header,
    Data.toBlob ⟨[.overflowSamples ⟨3, 4, [7], [1]⟩], []⟩ header]

theorem overflow_counts_are_conserved_late :
    (accepted ∅ lateOverflow).length = 3 ∧
      ∃ series, ((receive ∅ lateOverflow).overflow ⟨"a", 1, none, none⟩)[0]? =
          some series ∧
        series.name = "inst_executed" ∧ (series.count 7).toNat = 6 ∧
        series.counts.get? 7 ≠ some 0 := by
  have htable :
      (receive ∅ lateOverflow).overflow ⟨"a", 1, none, none⟩ ≠ [] := by
    decide +kernel
  have hcounter : (receive ∅ lateOverflow).counters[0]? =
      some ⟨"inst_executed", .count, 1000⟩ := by
    decide +kernel
  have hevents : eventsOf (receive ∅ lateOverflow).counters.length
      (recordsOf ⟨"a", 1, none, none⟩ (told (accepted ∅ lateOverflow))) 0 7 =
        6 := by
    decide +kernel
  have hconserved :=
    overflow_counts_are_conserved lateOverflow ⟨"a", 1, none, none⟩
  rcases (hconserved.1 htable).2 0 _ hcounter with
    ⟨series, hseries, hname, hcounts⟩
  have hsmall := hcounts 7 (by rw [hevents]; decide)
  rw [hevents] at hsmall
  exact ⟨by decide +kernel, series, hseries, hname, hsmall⟩

end PerformanceData
end Cuda
end CudaProfile
