import CudaProfile.Proofs.AddressSet.Obtainable
/-!
# Bits packed into bytes

A record is read as a bitmap exactly if it is over some addresses, not too many,
and has as many bytes as their bits need. Bit after bit the bitmap has what the
bytes say, and written again it gives the same bytes but for the bits after the
last address, which are cleared. A bitmap itself is always read back from its
record, and so is a set, bitmap by bitmap.

Byte strings are compared bit by bit: place `p` is bit `p % 8` of byte `p / 8`.
-/

namespace CudaProfile

/-! ## Bits of byte strings -/

namespace Bitmap

theorem bitOf_toArray (bytes : List UInt8) (place : Nat) :
    bitOf bytes.toArray place =
      ((bytes[place / 8]?).getD 0).toNat.testBit (place % 8) := by
  unfold bitOf
  rw [Array.getD_eq_getD_getElem?, List.getElem?_toArray]

theorem byte_ext {a b : UInt8}
    (h : ∀ i < 8, a.toNat.testBit i = b.toNat.testBit i) : a = b := by
  apply UInt8.toNat_inj.mp
  apply Nat.eq_of_testBit_eq
  intro i
  rcases Nat.lt_or_ge i 8 with hi | hi
  · exact h i hi
  · have hbound : 2 ^ 8 ≤ 2 ^ i := Nat.pow_le_pow_right (by decide) hi
    rw [Nat.testBit_lt_two_pow (Nat.lt_of_lt_of_le a.toNat_lt hbound),
      Nat.testBit_lt_two_pow (Nat.lt_of_lt_of_le b.toNat_lt hbound)]

theorem bytes_ext {bytes others : List UInt8}
    (hlength : bytes.length = others.length)
    (h : ∀ place < 8 * bytes.length,
      bitOf bytes.toArray place = bitOf others.toArray place) :
    bytes = others := by
  apply List.ext_getElem hlength
  intro j hj hj'
  apply byte_ext
  intro i hi
  have hplace := h (8 * j + i) (by omega)
  have hdiv : (8 * j + i) / 8 = j := by omega
  have hmod : (8 * j + i) % 8 = i := by omega
  rw [bitOf_toArray, bitOf_toArray, hdiv, hmod, List.getElem?_eq_getElem hj,
    List.getElem?_eq_getElem hj'] at hplace
  exact hplace

end Bitmap

/-! ## Records -/

namespace BitmapRecord

def covered (r : BitmapRecord) : AddressRange :=
  Interval.ofHalfOpen r.range

/-- Whether a record is over some addresses, no more than fit into a bitmap, and
has as many bytes as their bits need, at least one. The half-open range of all
addresses looks empty, and counts as empty. -/
structure WellFormed (r : BitmapRecord) : Prop where
  start_ne_stop : r.range.start ≠ r.range.stop
  nonempty : r.range.start ≤ r.range.stop - 1
  fits : r.covered.size ≤ 2 ^ 32
  filled : r.data.length = max 1 ((r.covered.size + 7) / 8)

def cleared (r : BitmapRecord) : BitmapRecord :=
  let used := r.covered.size % 8
  if used = 0 then r
  else
    { r with
      data := r.data.modify (r.data.length - 1) fun last =>
        last &&& UInt8.ofNat (2 ^ used - 1) }

theorem range_cleared (r : BitmapRecord) : r.cleared.range = r.range := by
  unfold cleared
  simp only
  split
  · rfl
  · rfl

theorem length_cleared (r : BitmapRecord) :
    r.cleared.data.length = r.data.length := by
  unfold cleared
  simp only
  split
  · rfl
  · exact List.length_modify _ _ _

theorem testBit_lowest (byte : UInt8) {used : Nat} (hused : used < 8)
    (i : Nat) :
    (byte &&& UInt8.ofNat (2 ^ used - 1)).toNat.testBit i =
      (decide (i < used) && byte.toNat.testBit i) := by
  have hmask : (UInt8.ofNat (2 ^ used - 1)).toNat = 2 ^ used - 1 := by
    have hpow : 2 ^ used < 2 ^ 8 := Nat.pow_lt_pow_right (by decide) hused
    rw [UInt8.toNat_ofNat']
    exact Nat.mod_eq_of_lt (by omega)
  rw [UInt8.toNat_and, hmask, Nat.testBit_and, Nat.testBit_two_pow_sub_one,
    Bool.and_comm]

theorem bitOf_cleared {r : BitmapRecord} (h : r.WellFormed) {place : Nat}
    (hplace : place < 8 * r.data.length) :
    Bitmap.bitOf r.cleared.data.toArray place =
      (decide (place < r.covered.size) &&
        Bitmap.bitOf r.data.toArray place) := by
  have hfilled := h.filled
  have hfull : 0 < r.covered.size := by
    unfold Interval.size
    rw [Interval.isEmpty_eq_false_iff.mpr h.nonempty]
    exact Nat.succ_pos _
  rw [Bitmap.bitOf_toArray, Bitmap.bitOf_toArray]
  unfold cleared
  simp only
  split
  · next hused =>
    have hin : place < r.covered.size := by omega
    rw [decide_eq_true hin, Bool.true_and]
  · next hused =>
    simp only [List.getElem?_modify]
    split
    · next hlast =>
      have hj : place / 8 < r.data.length := by omega
      have hpadding : place % 8 < r.covered.size % 8 ↔
          place < r.covered.size := by omega
      rw [List.getElem?_eq_getElem hj, Option.map_eq_map, Option.map_some,
        Option.getD_some, Option.getD_some,
        testBit_lowest _ (Nat.mod_lt _ (by decide)),
        decide_eq_decide.mpr hpadding]
    · next hearlier =>
      have hin : place < r.covered.size := by omega
      rw [decide_eq_true hin, Bool.true_and]
      simp

end BitmapRecord

/-! ## Bitmaps of records -/

namespace Bitmap

theorem ofRecord_ok_iff (r : BitmapRecord) :
    (∃ b, ofRecord r = .ok b) ↔ r.WellFormed := by
  have hwide : ∀ hfull : r.covered.isEmpty = false,
      maxBitmapWidth < r.covered.width ↔ 2 ^ 32 < r.covered.size :=
    fun hfull => Interval.limit_lt_width_iff hfull
  constructor
  · intro hread
    rcases hread with ⟨b, h⟩
    unfold ofRecord at h
    simp only at h
    split at h
    · cases h
    · next hsome =>
      split at h
      · cases h
      · next hfits =>
        split at h
        · cases h
        · next hlength =>
          simp only [Bool.or_eq_true, decide_eq_true_eq, not_or,
            Bool.not_eq_true] at hsome
          refine ⟨hsome.1, Interval.isEmpty_eq_false_iff.mp hsome.2, ?_,
            not_not.mp hlength⟩
          exact Nat.not_lt.mp fun hlt => hfits ((hwide hsome.2).mpr hlt)
  · intro h
    have hfull : r.covered.isEmpty = false :=
      Interval.isEmpty_eq_false_iff.mpr h.nonempty
    have hfits : ¬r.covered.width > maxBitmapWidth := fun hlt =>
      Nat.not_lt.mpr h.fits ((hwide hfull).mp hlt)
    have hsome : ¬(decide (r.range.start = r.range.stop) ||
        r.covered.isEmpty) = true := by
      simp [h.start_ne_stop, hfull]
    refine ⟨ofBits r.covered (bitOf r.data.toArray), ?_⟩
    exact (if_neg hsome).trans ((if_neg hfits).trans
      (if_neg (not_not_intro h.filled)))

theorem range_ofRecord {r : BitmapRecord} {b : Bitmap}
    (h : ofRecord r = .ok b) : b.range = r.covered := by
  rw [(ofRecord_eq_ok h).2]
  rfl

theorem member_ofRecord_at {r : BitmapRecord} {b : Bitmap}
    (h : ofRecord r = .ok b) {place : Nat} (hplace : place < b.range.size) :
    b.range.contains (b.range.lo + UInt64.ofNat place) = true ∧
      covers b.ones (b.range.lo.toNat + place) =
        bitOf r.data.toArray place ∧
      b.member (b.range.lo + UInt64.ofNat place) =
        bitOf r.data.toArray place := by
  rcases Interval.toNat_lo_add_size (legal_ofRecord h).1 with ⟨hle, hsize⟩
  have hend := b.range.hi.toNat_lt
  have hx : (b.range.lo + UInt64.ofNat place).toNat =
      b.range.lo.toNat + place := toNat_add_ofNat (by omega)
  have hin : b.range.contains (b.range.lo + UInt64.ofNat place) = true := by
    rw [Interval.contains_iff, UInt64.le_iff_toNat_le, UInt64.le_iff_toNat_le]
    omega
  have hbit : b.member (b.range.lo + UInt64.ofNat place) =
      bitOf r.data.toArray place := by
    have hstart : r.range.start = b.range.lo := by
      rw [range_ofRecord h]
      rfl
    rw [member_ofRecord h, holds, ← BitmapRecord.covered, ← range_ofRecord h,
      hin, Bool.true_and, hstart, hx, Nat.add_sub_cancel_left]
  refine ⟨hin, ?_, hbit⟩
  rw [← hx, covers_toNat]
  exact hbit

theorem bitOf_toRecord_of_le (b : Bitmap) {place : Nat}
    (hplace : b.range.size ≤ place) :
    bitOf b.toRecord.data.toArray place = false := by
  have hlength : b.toRecord.data.length = byteLength b.range.size :=
    length_bytesFrom _ _ _
  rcases Nat.lt_or_ge place (8 * byteLength b.range.size) with hin | hout
  · change bitOf (bytesFrom _ _ _).toArray place = false
    rw [bitOf_bytesFrom b.pairwise_ones hin, covers, List.any_eq_false]
    intro r hr
    rcases (RangeList.spaced_iff.mp b.spaced).1 r hr with ⟨hlo, hle, hhi⟩
    rw [UInt64.le_iff_toNat_le] at hle
    have hsome : b.range.lo ≤ b.range.hi := by
      rw [UInt64.le_iff_toNat_le]
      omega
    have hsize := (Interval.toNat_lo_add_size
      (Interval.isEmpty_eq_false_iff.mpr hsome)).2
    simp only [Bool.and_eq_true, decide_eq_true_eq]
    omega
  · rw [bitOf_toArray, List.getElem?_eq_none (by omega)]
    exact Nat.zero_testBit _

theorem toRecord_ofRecord {r : BitmapRecord} {b : Bitmap}
    (h : ofRecord r = .ok b) : b.toRecord = r.cleared := by
  have hformed := (ofRecord_ok_iff r).mp ⟨b, h⟩
  have hsize : b.range.size = r.covered.size := by
    rw [range_ofRecord h]
  have hlength : b.toRecord.data.length = r.data.length := by
    rw [hformed.filled, ← hsize]
    exact length_bytesFrom _ _ _
  have hrange : b.toRecord.range = r.cleared.range := by
    rw [BitmapRecord.range_cleared]
    change b.range.toHalfOpen = _
    rw [range_ofRecord h]
    exact Interval.toHalfOpen_ofHalfOpen r.range
  have hdata : b.toRecord.data = r.cleared.data := by
    apply bytes_ext (hlength.trans (BitmapRecord.length_cleared r).symm)
    intro place hplace
    rw [hlength] at hplace
    rw [BitmapRecord.bitOf_cleared hformed hplace]
    rcases Nat.lt_or_ge place b.range.size with hin | hout
    · rw [bitOf_toRecord b hin, (member_ofRecord_at h hin).2.1,
        decide_eq_true (hsize ▸ hin), Bool.true_and]
    · rw [bitOf_toRecord_of_le b hout,
        decide_eq_false (Nat.not_lt.mpr (hsize ▸ hout)), Bool.false_and]
  cases hr : r.cleared
  rw [hr] at hrange hdata
  cases hb : b.toRecord
  rw [hb] at hrange hdata
  cases hrange
  cases hdata
  rfl

theorem get_ofRecord {r : BitmapRecord} {b : Bitmap} (h : ofRecord r = .ok b)
    {place : Nat} (hplace : place < b.range.size) :
    ∃ byte, r.data[place / 8]? = some byte ∧
      b.get (b.range.lo + UInt64.ofNat place) =
        .ok (byte.toNat.testBit (place % 8)) := by
  have hfilled := ((ofRecord_ok_iff r).mp ⟨b, h⟩).filled
  rw [← range_ofRecord h] at hfilled
  have hbyte : place / 8 < r.data.length := by omega
  rcases member_ofRecord_at h hplace with ⟨hin, _, hbit⟩
  refine ⟨r.data[place / 8], List.getElem?_eq_getElem hbyte, ?_⟩
  unfold get
  rw [if_pos hin, hbit, bitOf_toArray, List.getElem?_eq_getElem hbyte]
  rfl

/-! ## Records and what is made of them -/

/-- A record is read exactly if it is well formed; the bitmap then has, bit
after bit, what the bytes say, and is written as the record with the bits after
the last address cleared. Every bitmap that can be obtained is read back from
its record, and every such set that is not complemented from its records, with
the same bitmaps in the same order. -/
theorem packing_restores_bitmaps :
    (∀ r : BitmapRecord,
      ((∃ b, ofRecord r = .ok b) ↔ r.WellFormed) ∧
      ∀ b, ofRecord r = .ok b →
        b.range = r.covered ∧
        (∀ i < b.range.size, ∃ byte, r.data[i / 8]? = some byte ∧
          b.get (b.range.lo + UInt64.ofNat i) =
            .ok (byte.toNat.testBit (i % 8))) ∧
        b.toRecord = r.cleared) ∧
    (∀ b, Obtainable b → ofRecord b.toRecord = .ok b) ∧
    ∀ s : AddressSet, s.Obtainable → s.complemented = false →
      ∃ records t, s.toRecords = .ok records ∧
        AddressSet.ofRecords records = .ok t ∧ t.bitmaps = s.bitmaps := by
  refine ⟨?_, ?_, ?_⟩
  · intro r
    refine ⟨ofRecord_ok_iff r, ?_⟩
    intro b h
    exact ⟨range_ofRecord h, fun _ => get_ofRecord h, toRecord_ofRecord h⟩
  · intro b hb
    exact ofRecord_toRecord hb.legal
  · intro s hs hplain
    refine ⟨s.bitmaps.map toRecord, s, ?_,
      AddressSet.ofRecords_map_toRecord hs.legal hplain, rfl⟩
    unfold AddressSet.toRecords
    rw [hplain]
    rfl

def lastEleven : BitmapRecord :=
  ⟨⟨0xFFFFFFFFFFFFFFF5, 0⟩, [0xA5, 0xFF]⟩

theorem packing_restores_bitmaps_up_to_last_address :
    lastEleven.WellFormed ∧
      ∃ b, ofRecord lastEleven = .ok b ∧
        b.get 0xFFFFFFFFFFFFFFFF = .ok true ∧
        b.toRecord = ⟨⟨0xFFFFFFFFFFFFFFF5, 0⟩, [0xA5, 0x07]⟩ ∧
        ofRecord b.toRecord = .ok b := by
  have hformed : lastEleven.WellFormed :=
    ⟨by decide, by decide, by decide, by decide⟩
  rcases packing_restores_bitmaps with ⟨hrecords, hbitmaps, _⟩
  rcases hrecords lastEleven with ⟨hread, hexact⟩
  rcases hread.mpr hformed with ⟨b, hb⟩
  rcases hexact b hb with ⟨hrange, hbits, hwritten⟩
  have hlast : 10 < b.range.size := by
    rw [hrange]
    decide
  rcases hbits 10 hlast with ⟨byte, hbyte, hget⟩
  have hsecond : byte = 0xFF := (Option.some.inj hbyte).symm
  rw [hrange, hsecond] at hget
  refine ⟨hformed, b, hb, hget, ?_, hbitmaps b (.ofRecord hb)⟩
  rw [hwritten]
  decide

end Bitmap
end CudaProfile
