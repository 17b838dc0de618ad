import CudaProfile.Proofs.AddressSet.Algebra
/-!
# Bitmaps survive as records

The runs of a bitmap are written as bits and found again. Both directions are
followed by places: the bit at a place is set exactly if the address at that
distance from the first one is in a run. Since only one canonical list of runs
has given addresses, the runs that are found are those that were written.
-/

namespace CudaProfile

open RangeList

namespace Bitmap

/-! ## Runs of bits -/

theorem toNat_add_ofNat {origin : Address} {distance : Nat}
    (h : origin.toNat + distance < 2 ^ 64) :
    (origin + UInt64.ofNat distance).toNat = origin.toNat + distance := by
  have hdistance : distance < UInt64.size := by
    change distance < 2 ^ 64
    omega
  rw [UInt64.toNat_add, UInt64.toNat_ofNat_of_lt' hdistance]
  omega

theorem toNat_run {origin : Address} {first place : Nat} (hlt : first < place)
    (h : origin.toNat + place ≤ 2 ^ 64) :
    (origin + UInt64.ofNat first).toNat = origin.toNat + first ∧
      (origin + UInt64.ofNat place - 1).toNat = origin.toNat + place - 1 := by
  have hpred : origin + UInt64.ofNat place - 1 =
      origin + UInt64.ofNat (place - 1) := by
    have hplace : place = place - 1 + 1 := by omega
    have hword : UInt64.ofNat place = UInt64.ofNat (place - 1) + 1 := by
      rw [hplace, Nat.add_sub_cancel, UInt64.ofNat_add]
      rfl
    rw [hword]
    grind
  refine ⟨toNat_add_ofNat (by omega), ?_⟩
  rw [hpred, toNat_add_ofNat (by omega)]
  omega

theorem contains_run {origin : Address} {first place : Nat}
    (hlt : first < place) (h : origin.toNat + place ≤ 2 ^ 64) (x : Address) :
    (⟨origin + UInt64.ofNat first, origin + UInt64.ofNat place - 1⟩ :
        Interval).contains x = true ↔
      ∃ i, x.toNat = origin.toNat + i ∧ first ≤ i ∧ i < place := by
  rcases toNat_run hlt h with ⟨hlo, hhi⟩
  rw [Interval.contains_iff, UInt64.le_iff_toNat_le, UInt64.le_iff_toNat_le,
    hlo, hhi]
  constructor
  · intro hin
    exact ⟨x.toNat - origin.toNat, by omega, by omega, by omega⟩
  · intro hin
    rcases hin with ⟨i, hx, hfrom, hto⟩
    omega

/-- Whether the bit of a place counts: it is set, or a run is known to go on up
to the place. -/
def Counts (bit : Nat → Bool) (begun : Option Nat) (place count i : Nat) :
    Prop :=
  (∃ first, begun = some first ∧ first ≤ i ∧ i < place) ∨
    (place ≤ i ∧ i < place + count ∧ bit i = true)

theorem counts_or_some {bit : Nat → Bool} {begun : Option Nat} {place : Nat}
    (hbegun : ∀ first, begun = some first → first < place)
    (hbit : bit place = true) (count i : Nat) :
    Counts bit (begun.or (some place)) (place + 1) count i ↔
      Counts bit begun place (count + 1) i := by
  unfold Counts
  cases begun with
  | none =>
      grind
  | some first =>
      have hlt := hbegun first rfl
      rw [Option.some_or]
      by_cases hi : i = place
      · subst hi
        grind
      · grind

theorem lt_of_begun_or {begun : Option Nat} {place : Nat}
    (hbegun : ∀ first, begun = some first → first < place) (first : Nat)
    (h : begun.or (some place) = some first) : first < place + 1 := by
  cases begun with
  | none =>
      cases h
      exact Nat.lt_succ_self place
  | some earlier =>
      cases h
      exact Nat.lt_succ_of_lt (hbegun first rfl)

theorem counts_none {bit : Nat → Bool} {place : Nat}
    (hbit : bit place = false) (count i : Nat) :
    Counts bit none (place + 1) count i ↔
      Counts bit none place (count + 1) i := by
  unfold Counts
  grind

theorem counts_some {bit : Nat → Bool} {place : Nat}
    (hbit : bit place = false) (first count i : Nat) :
    (first ≤ i ∧ i < place) ∨ Counts bit none (place + 1) count i ↔
      Counts bit (some first) place (count + 1) i := by
  unfold Counts
  grind

theorem counts_zero {bit : Nat → Bool} {begun : Option Nat} {place i : Nat} :
    Counts bit begun place 0 i ↔
      ∃ first, begun = some first ∧ first ≤ i ∧ i < place := by
  unfold Counts
  grind

theorem contains_runsFrom {bit : Nat → Bool} {origin : Address}
    {begun : Option Nat} {place count : Nat}
    (hbegun : ∀ first, begun = some first → first < place)
    (h : origin.toNat + place + count ≤ 2 ^ 64) (x : Address) :
    contains (runsFrom bit origin begun place count) x = true ↔
      ∃ i, x.toNat = origin.toNat + i ∧ Counts bit begun place count i := by
  induction count generalizing begun place with
  | zero =>
      simp only [counts_zero]
      cases begun with
      | none =>
          simp [runsFrom]
      | some first =>
          have hlt := hbegun first rfl
          simp only [runsFrom, contains_cons, contains_nil, Bool.or_false]
          rw [contains_run hlt (by omega)]
          simp
  | succ count ih =>
      unfold runsFrom
      cases hbit : bit place with
      | true =>
          rw [if_pos rfl, ih (lt_of_begun_or hbegun) (by omega)]
          simp only [counts_or_some hbegun hbit]
      | false =>
          rw [if_neg Bool.false_ne_true]
          have hnone : ∀ first, none = some first → first < place + 1 :=
            fun _ heq => by cases heq
          have hlater := ih hnone (by omega)
          cases begun with
          | none =>
              simp only [hlater, counts_none hbit]
          | some first =>
              have hlt := hbegun first rfl
              simp only [contains_cons, Bool.or_eq_true, hlater,
                ← counts_some hbit]
              rw [contains_run hlt (by omega), ← exists_or]
              simp only [and_or_left]

/-! ## Bytes -/

def covers (ranges : List AddressRange) (n : Nat) : Bool :=
  ranges.any fun r => r.lo.toNat ≤ n && n ≤ r.hi.toNat

theorem covers_toNat (ranges : List AddressRange) (x : Address) :
    covers ranges x.toNat = contains ranges x := by
  unfold covers contains Interval.contains
  simp only [UInt64.le_iff_toNat_le]

theorem covers_takeWhile {ranges : List AddressRange}
    (h : ranges.Pairwise fun r s => r.lo ≤ s.lo) {bound n : Nat}
    (hn : n < bound) :
    covers (ranges.takeWhile fun r => r.lo.toNat < bound) n =
      covers ranges n := by
  induction ranges with
  | nil =>
      rfl
  | cons r rest ih =>
      rcases List.pairwise_cons.mp h with ⟨hfirst, hrest⟩
      by_cases hr : r.lo.toNat < bound
      · rw [List.takeWhile_cons_of_pos (by simpa using hr)]
        unfold covers at ih ⊢
        rw [List.any_cons, List.any_cons, ih hrest]
      · rw [List.takeWhile_cons_of_neg (by simpa using hr)]
        symm
        apply List.any_eq_false.mpr
        intro s hs
        have hle : r.lo.toNat ≤ s.lo.toNat := by
          rcases List.mem_cons.mp hs with rfl | hlater
          · exact Nat.le_refl _
          · exact UInt64.le_iff_toNat_le.mp (hfirst s hlater)
        grind

theorem covers_dropWhile (ranges : List AddressRange) {bound n : Nat}
    (hn : bound ≤ n) :
    covers (ranges.dropWhile fun r => r.hi.toNat < bound) n =
      covers ranges n := by
  induction ranges with
  | nil =>
      rfl
  | cons r rest ih =>
      by_cases hr : r.hi.toNat < bound
      · rw [List.dropWhile_cons_of_pos (by simpa using hr), ih]
        unfold covers
        rw [List.any_cons]
        grind
      · rw [List.dropWhile_cons_of_neg (by simpa using hr)]

theorem testBit_natOfBits (bits : List Bool) (i : Nat) :
    (natOfBits bits).testBit i = bits.getD i false := by
  induction bits generalizing i with
  | nil =>
      exact Nat.zero_testBit i
  | cons bit rest ih =>
      unfold natOfBits
      cases i with
      | zero =>
          cases bit <;> simp [Nat.testBit_zero]
      | succ i =>
          rw [Nat.testBit_succ, List.getD_cons_succ, ← ih]
          congr 1
          cases bit <;> simp
          omega

theorem testBit_byteFrom {ranges : List AddressRange}
    (h : ranges.Pairwise fun r s => r.lo ≤ s.lo) (start : Nat) {i : Nat}
    (hi : i < 8) :
    (byteFrom start ranges).toNat.testBit i = covers ranges (start + i) := by
  unfold byteFrom
  simp only
  rw [UInt8.toNat_ofNat', Nat.testBit_mod_two_pow, testBit_natOfBits,
    ← covers_takeWhile h (Nat.add_lt_add_left hi start)]
  simp [hi, covers]

theorem bitOf_bytesFrom {ranges : List AddressRange}
    (h : ranges.Pairwise fun r s => r.lo ≤ s.lo) {start count place : Nat}
    (hplace : place < 8 * count) :
    bitOf (bytesFrom start ranges count).toArray place =
      covers ranges (start + place) := by
  unfold bitOf
  rw [Array.getD_eq_getD_getElem?, List.getElem?_toArray]
  induction count generalizing ranges start place with
  | zero =>
      omega
  | succ count ih =>
      have hlater := h.sublist (List.dropWhile_sublist fun r =>
        decide (r.hi.toNat < start))
      unfold bytesFrom
      by_cases hfirst : place < 8
      · rw [Nat.div_eq_of_lt hfirst, Nat.mod_eq_of_lt hfirst]
        change (byteFrom start _).toNat.testBit place = _
        rw [testBit_byteFrom hlater start hfirst, covers_dropWhile _ (by omega)]
      · have hdiv : place / 8 = (place - 8) / 8 + 1 := by omega
        have hmod : place % 8 = (place - 8) % 8 := by omega
        rw [hdiv, hmod, List.getElem?_cons_succ, ih hlater (by omega),
          covers_dropWhile _ (by omega)]
        congr 1
        omega

/-! ## Records -/

/-- A bitmap as it can be made: over at least one address and no more than fit
into a bitmap. -/
def Legal (b : Bitmap) : Prop :=
  b.range.isEmpty = false ∧ b.range.size ≤ 2 ^ 32

theorem ext_member {b c : Bitmap} (hrange : b.range = c.range)
    (h : ∀ x, b.member x = c.member x) : b = c := by
  have hones : b.ones = c.ones :=
    eq_of_contains_eq b.spaced.canonical c.spaced.canonical h
  cases b
  cases c
  cases hrange
  cases hones
  rfl

theorem range_contains {b : Bitmap} {x : Address} (h : b.member x = true) :
    b.range.contains x = true := by
  rcases contains_iff.mp h with ⟨r, hr, hlo, hhi⟩
  rcases (spaced_iff.mp b.spaced).1 r hr with ⟨hfrom, _, hto⟩
  rw [UInt64.le_iff_toNat_le] at hlo hhi
  rw [Interval.contains_iff, UInt64.le_iff_toNat_le, UInt64.le_iff_toNat_le]
  omega

theorem pairwise_ones (b : Bitmap) :
    b.ones.Pairwise fun r s => r.lo ≤ s.lo := by
  rcases canonical_iff.mp b.spaced.canonical with ⟨hfull, hfar⟩
  refine hfar.imp_of_mem ?_
  intro r s hr _ hrs
  exact UInt64.le_trans (hfull r hr)
    (UInt64.le_of_lt (lt_of_toNat_add_two_le hrs))

theorem bitOf_toRecord (b : Bitmap) {place : Nat}
    (h : place < b.range.size) :
    bitOf b.toRecord.data.toArray place =
      covers b.ones (b.range.lo.toNat + place) := by
  apply bitOf_bytesFrom b.pairwise_ones
  unfold byteLength
  omega

theorem member_ofBits {range : AddressRange} (h : range.isEmpty = false)
    (bit : Nat → Bool) (x : Address) :
    (ofBits range bit).member x =
      (range.contains x && bit (x.toNat - range.lo.toNat)) := by
  rcases Interval.toNat_lo_add_size h with ⟨hle, hsize⟩
  have hend := range.hi.toNat_lt
  unfold ofBits
  rw [member_ofRanges, Bool.eq_iff_iff, Bool.and_eq_true, Bool.and_eq_true]
  apply and_congr_right
  intro hin
  rw [Interval.contains_iff, UInt64.le_iff_toNat_le,
    UInt64.le_iff_toNat_le] at hin
  rw [contains_runsFrom (by simp) (by omega)]
  constructor
  · intro hset
    rcases hset with ⟨i, hx, ⟨_, hnone, _⟩ | ⟨_, _, hbit⟩⟩
    · cases hnone
    · rw [hx, Nat.add_sub_cancel_left]
      exact hbit
  · intro hbit
    exact ⟨x.toNat - range.lo.toNat, by omega,
      Or.inr ⟨Nat.zero_le _, by omega, hbit⟩⟩

def holds (record : BitmapRecord) (x : Address) : Bool :=
  (Interval.ofHalfOpen record.range).contains x &&
    bitOf record.data.toArray (x.toNat - record.range.start.toNat)

theorem holds_toRecord (b : Bitmap) (x : Address) :
    holds b.toRecord x = b.member x := by
  have hrange : Interval.ofHalfOpen b.toRecord.range = b.range :=
    Interval.ofHalfOpen_toHalfOpen b.range
  have hstart : b.toRecord.range.start = b.range.lo := rfl
  unfold holds
  rw [hrange, hstart]
  cases hin : b.range.contains x with
  | false =>
      symm
      rw [Bool.false_and, Bool.eq_false_iff]
      intro hmember
      rw [range_contains hmember] at hin
      cases hin
  | true =>
      rw [Interval.contains_iff] at hin
      rcases hin with ⟨hlo, hhi⟩
      have hsize := (Interval.toNat_lo_add_size
        (Interval.isEmpty_eq_false_iff.mpr (UInt64.le_trans hlo hhi))).2
      rw [UInt64.le_iff_toNat_le] at hlo hhi
      rw [Bool.true_and, bitOf_toRecord b (by omega), Nat.add_sub_cancel' hlo,
        covers_toNat]
      rfl

theorem ofBits_toRecord {b : Bitmap} (h : b.range.isEmpty = false) :
    ofBits b.range (bitOf b.toRecord.data.toArray) = b := by
  have hrange :
      (ofBits b.range (bitOf b.toRecord.data.toArray)).range = b.range := rfl
  apply ext_member hrange
  intro x
  have hofHalfOpen : Interval.ofHalfOpen b.toRecord.range = b.range :=
    Interval.ofHalfOpen_toHalfOpen b.range
  rw [member_ofBits h, ← holds_toRecord, holds, hofHalfOpen]
  rfl

/-- The half-open range of a legal bitmap does not look empty: only that of all
addresses does. -/
theorem start_ne_stop {b : Bitmap} (h : b.Legal) :
    b.toRecord.range.start ≠ b.toRecord.range.stop := by
  rcases h with ⟨hfull, hfits⟩
  intro heq
  change b.range.lo = b.range.hi + 1 at heq
  have hle := Interval.isEmpty_eq_false_iff.mp hfull
  have hsize := Interval.size_eq hfull
  have hdistance : b.range.hi - b.range.lo = Interval.maxWord := by
    rw [heq]
    have hmax : Interval.maxWord = 0 - 1 := rfl
    rw [hmax]
    grind
  have hmax : Interval.maxWord.toNat = 18446744073709551615 := rfl
  rw [hdistance] at hsize
  omega

theorem ofRecord_toRecord {b : Bitmap} (h : b.Legal) :
    ofRecord b.toRecord = .ok b := by
  have hrange : Interval.ofHalfOpen b.toRecord.range = b.range :=
    Interval.ofHalfOpen_toHalfOpen b.range
  have hwidth : ¬b.range.width > maxBitmapWidth := by
    intro hwide
    exact Nat.not_lt.mpr h.2 ((Interval.limit_lt_width_iff h.1).mp hwide)
  have hlength : b.toRecord.data.length = byteLength b.range.size :=
    length_bytesFrom _ _ _
  unfold ofRecord
  simp only [hrange]
  rw [if_neg (by simp [start_ne_stop h, h.1]), if_neg hwidth,
    if_neg (not_not_intro hlength), ofBits_toRecord h.1]

theorem ofRecord_eq_ok {record : BitmapRecord} {b : Bitmap}
    (h : ofRecord record = .ok b) :
    b.Legal ∧ b = ofBits (Interval.ofHalfOpen record.range)
      (bitOf record.data.toArray) := by
  unfold ofRecord at h
  simp only at h
  split at h
  · cases h
  · next hfull =>
    split at h
    · cases h
    · next hfits =>
      split at h
      · cases h
      · cases h
        have hfull : (Interval.ofHalfOpen record.range).isEmpty = false := by
          simp at hfull
          exact hfull.2
        refine ⟨⟨hfull, Nat.not_lt.mp ?_⟩, rfl⟩
        intro hwide
        exact hfits ((Interval.limit_lt_width_iff hfull).mpr hwide)

theorem legal_ofRecord {record : BitmapRecord} {b : Bitmap}
    (h : ofRecord record = .ok b) : b.Legal :=
  (ofRecord_eq_ok h).1

theorem member_ofRecord {record : BitmapRecord} {b : Bitmap}
    (h : ofRecord record = .ok b) (x : Address) :
    b.member x = holds record x := by
  rcases ofRecord_eq_ok h with ⟨⟨hfull, _⟩, rfl⟩
  exact member_ofBits hfull _ x

end Bitmap
end CudaProfile
