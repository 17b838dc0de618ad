import Mathlib.Data.Nat.Count
import CudaProfile.Outcome
import CudaProfile.Proofs.AddressSet.Counting
import CudaProfile.Proofs.AddressSet.Packing
/-!
# Bitmaps as finite maps

A bitmap gives every address of its range a bit: the one that was set there
last, or else the one that it was made with. Other addresses are refused, and a
refusal changes nothing.

The same calls can be followed in the bytes in which a bitmap is stored. A byte
is looked up before it is read or written there, so a place outside the bytes
would show as a missing answer. There is none: the bytes answer as the bitmap
does, and after every call they are those of the bitmap.
-/

namespace CudaProfile
namespace Bitmap

open RangeList

/-! ## Places in bytes -/

def mask (place : Nat) : UInt8 :=
  1 <<< UInt8.ofNat (place % 8)

def written (byte : UInt8) (place : Nat) (value : Bool) : UInt8 :=
  if value then byte ||| mask place else byte &&& ~~~mask place

def onesIn (byte : UInt8) : Nat :=
  Nat.count (fun i => byte.toNat.testBit i = true) 8

theorem toNat_mask (place : Nat) : (mask place).toNat = 2 ^ (place % 8) := by
  have hall : ∀ i < 8, ((1 : UInt8) <<< UInt8.ofNat i).toNat = 2 ^ i := by
    decide
  exact hall _ (Nat.mod_lt place (by decide))

theorem and_mask (byte : UInt8) (place : Nat) :
    (byte &&& mask place != 0) = byte.toNat.testBit (place % 8) := by
  have hpow : 2 ^ (place % 8) ≠ 0 := Nat.pos_iff_ne_zero.mp (Nat.two_pow_pos _)
  rw [Bool.eq_iff_iff, bne_iff_ne, ne_eq, ← UInt8.toNat_inj, UInt8.toNat_and,
    toNat_mask, Nat.and_two_pow]
  cases byte.toNat.testBit (place % 8) <;> simp

theorem testBit_written (byte : UInt8) (place : Nat) (value : Bool) {i : Nat}
    (hi : i < 8) :
    (written byte place value).toNat.testBit i =
      if i = place % 8 then value else byte.toNat.testBit i := by
  unfold written
  cases value with
  | true =>
      rw [if_pos rfl, UInt8.toNat_or, Nat.testBit_or, toNat_mask,
        Nat.testBit_two_pow]
      by_cases h : place % 8 = i
      · simp [h]
      · simp [h, Ne.symm h]
  | false =>
      have hnot : (~~~mask place).toNat.testBit i =
          !(mask place).toNat.testBit i := by
        have hbits : (~~~mask place).toBitVec.getLsbD i =
            !(mask place).toBitVec.getLsbD i := by
          simp [hi]
        exact hbits
      rw [if_neg Bool.false_ne_true, UInt8.toNat_and, Nat.testBit_and, hnot,
        toNat_mask, Nat.testBit_two_pow]
      by_cases h : place % 8 = i
      · simp [h]
      · simp [h, Ne.symm h]

theorem bitOf_set {bytes : List UInt8} {place : Nat} {byte : UInt8}
    (h : bytes[place / 8]? = some byte) (value : Bool) (other : Nat) :
    bitOf (bytes.set (place / 8) (written byte place value)).toArray other =
      if other = place then value else bitOf bytes.toArray other := by
  have hlt := (List.getElem?_eq_some_iff.mp h).1
  rw [bitOf_toArray, bitOf_toArray]
  by_cases hbyte : place / 8 = other / 8
  · have hsame : other % 8 = place % 8 ↔ other = place := by omega
    rw [← hbyte, List.getElem?_set_self hlt, h, Option.getD_some,
      Option.getD_some, testBit_written byte place value
        (Nat.mod_lt other (by decide))]
    exact if_congr hsame rfl rfl
  · have hother : other ≠ place := by
      intro heq
      exact hbyte (congrArg (· / 8) heq.symm)
    rw [List.getElem?_set_ne hbyte, if_neg hother]

theorem bitOf_cons_of_lt (byte : UInt8) (rest : List UInt8) {place : Nat}
    (h : place < 8) :
    bitOf (byte :: rest).toArray place = byte.toNat.testBit place := by
  rw [bitOf_toArray, Nat.div_eq_of_lt h, Nat.mod_eq_of_lt h]
  rfl

theorem bitOf_cons_add (byte : UInt8) (rest : List UInt8) (place : Nat) :
    bitOf (byte :: rest).toArray (8 + place) = bitOf rest.toArray place := by
  have hdiv : (8 + place) / 8 = place / 8 + 1 := by omega
  have hmod : (8 + place) % 8 = place % 8 := by omega
  rw [bitOf_toArray, bitOf_toArray, hdiv, hmod, List.getElem?_cons_succ]

theorem sum_onesIn (bytes : List UInt8) :
    (bytes.map onesIn).sum =
      Nat.count (fun place => bitOf bytes.toArray place = true)
        (8 * bytes.length) := by
  induction bytes with
  | nil =>
      rfl
  | cons byte rest ih =>
      have hlength : 8 * (byte :: rest).length = 8 + 8 * rest.length := by
        rw [List.length_cons]
        omega
      have hfirst : onesIn byte =
          Nat.count (fun place => bitOf (byte :: rest).toArray place = true)
            8 := by
        unfold onesIn
        rw [Nat.count_eq_card_filter_range, Nat.count_eq_card_filter_range]
        apply congrArg
        apply Finset.filter_congr
        intro place hplace
        rw [bitOf_cons_of_lt byte rest (Finset.mem_range.mp hplace)]
      rw [List.map_cons, List.sum_cons, ih, hlength, Nat.count_add, hfirst]
      simp only [bitOf_cons_add]

/-! ## Stored bitmaps -/

/-- A bitmap as it is stored. -/
structure Packed where
  range : AddressRange
  data : List UInt8
deriving DecidableEq

namespace Packed

def clear (range : AddressRange) : Packed :=
  ⟨range, List.replicate (byteLength range.size) 0⟩

def ofRecord (record : BitmapRecord) : Packed :=
  ⟨record.covered, record.cleared.data⟩

def placeOf (p : Packed) (x : Address) : Except Error Nat :=
  if p.range.contains x then .ok (x - p.range.lo).toNat
  else .error (.outsideBitmap x p.range)

def get? (p : Packed) (x : Address) : Option (Except Error Bool) :=
  match p.placeOf x with
  | .ok place =>
      p.data[place / 8]?.map fun byte => .ok (byte &&& mask place != 0)
  | .error error => some (.error error)

def set? (p : Packed) (x : Address) (value : Bool) : Option (Outcome Packed) :=
  match p.placeOf x with
  | .ok place =>
      p.data[place / 8]?.map fun byte =>
        .done { p with
          data := p.data.set (place / 8) (written byte place value) }
  | .error error => some (.refused p error)

def run? (p : Packed) (calls : List (Address × Bool)) : Option Packed :=
  calls.foldlM (fun p call => (p.set? call.1 call.2).map Outcome.state) p

def count (p : Packed) : Nat :=
  (p.data.map onesIn).sum

end Packed

def pack (b : Bitmap) : Packed :=
  ⟨b.range, b.toRecord.data⟩

theorem length_pack (b : Bitmap) :
    b.pack.data.length = byteLength b.range.size :=
  length_bytesFrom _ _ _

theorem div_lt_length_pack (b : Bitmap) {place : Nat}
    (h : place < b.range.size) : place / 8 < b.pack.data.length := by
  rw [length_pack, byteLength]
  omega

theorem bitOf_pack_of_le (b : Bitmap) {place : Nat}
    (h : b.range.size ≤ place) : bitOf b.pack.data.toArray place = false :=
  bitOf_toRecord_of_le b h

theorem bitOf_pack_at (b : Bitmap) {place : Nat}
    (h : place < b.range.size) :
    (b.range.lo + UInt64.ofNat place).toNat = b.range.lo.toNat + place ∧
      bitOf b.pack.data.toArray place =
        b.member (b.range.lo + UInt64.ofNat place) := by
  have hsome : b.range.isEmpty = false := by
    rw [Bool.eq_false_iff]
    intro hempty
    rw [Interval.size, if_pos hempty] at h
    exact Nat.not_lt_zero place h
  have hsize := (Interval.toNat_lo_add_size hsome).2
  have hend := b.range.hi.toNat_lt
  have haddress : (b.range.lo + UInt64.ofNat place).toNat =
      b.range.lo.toNat + place := toNat_add_ofNat (by omega)
  refine ⟨haddress, (bitOf_toRecord b h).trans ?_⟩
  rw [← haddress, covers_toNat]
  rfl

theorem bitOf_pack {b : Bitmap} {x : Address}
    (h : b.range.contains x = true) :
    (x - b.range.lo).toNat < b.range.size ∧
      b.range.lo.toNat + (x - b.range.lo).toNat = x.toNat ∧
      bitOf b.pack.data.toArray (x - b.range.lo).toNat = b.member x := by
  rcases Interval.contains_iff.mp h with ⟨hlo, hhi⟩
  have hplace := UInt64.toNat_sub_of_le _ _ hlo
  have hsize := (Interval.toNat_lo_add_size
    (Interval.isEmpty_eq_false_iff.mpr (UInt64.le_trans hlo hhi))).2
  have haddress : b.range.lo + UInt64.ofNat (x - b.range.lo).toNat = x := by
    rw [UInt64.ofNat_toNat]
    grind
  rw [UInt64.le_iff_toNat_le] at hlo hhi
  have hin : (x - b.range.lo).toNat < b.range.size := by omega
  refine ⟨hin, by omega, ?_⟩
  rw [(bitOf_pack_at b hin).2, haddress]

theorem exists_byte {b : Bitmap} {x : Address}
    (h : b.range.contains x = true) :
    ∃ byte, b.pack.data[(x - b.range.lo).toNat / 8]? = some byte ∧
      byte.toNat.testBit ((x - b.range.lo).toNat % 8) = b.member x := by
  rcases bitOf_pack h with ⟨hin, _, hbit⟩
  have hbyte := div_lt_length_pack b hin
  refine ⟨_, List.getElem?_eq_getElem hbyte, ?_⟩
  rw [bitOf_toArray, List.getElem?_eq_getElem hbyte] at hbit
  exact hbit

theorem pack_eq {b : Bitmap} {p : Packed} (hrange : p.range = b.range)
    (hlength : p.data.length = byteLength b.range.size)
    (hbits : ∀ place, bitOf p.data.toArray place =
      bitOf b.pack.data.toArray place) : p = b.pack := by
  have hdata : p.data = b.pack.data :=
    bytes_ext (hlength.trans (length_pack b).symm) fun place _ => hbits place
  cases p
  cases hrange
  cases hdata
  rfl

theorem get?_pack (b : Bitmap) (x : Address) :
    b.pack.get? x = some (b.get x) := by
  unfold Packed.get? Packed.placeOf get
  cases h : b.range.contains x with
  | false =>
      have hout : b.pack.range.contains x = false := h
      rw [if_neg (by simp [hout])]
      rfl
  | true =>
      have hin : b.pack.range.contains x = true := h
      rcases exists_byte h with ⟨byte, hbyte, hbit⟩
      rw [if_pos hin]
      change (b.pack.data[(x - b.range.lo).toNat / 8]?).map _ = _
      rw [hbyte, Option.map_some, and_mask, if_pos rfl, ← hbit]
      rfl

/-! ## Setting bits -/

def assign (b : Bitmap) (call : Address × Bool) : Bitmap :=
  (Outcome.orElse b (b.set call.1 call.2)).state

theorem set_of_outside {b : Bitmap} {x : Address}
    (h : b.range.contains x = false) (value : Bool) :
    b.set x value = .error (.outsideBitmap x b.range) := by
  unfold set
  simp only
  rw [if_neg (by simp [h])]

theorem exists_set {b : Bitmap} {x : Address}
    (h : b.range.contains x = true) (value : Bool) :
    ∃ c, b.set x value = .ok c ∧ c.range = b.range ∧
      ∀ y, c.member y = if y = x then value else b.member y := by
  have hcanonical : Canonical [Interval.point x] :=
    canonical_iff.mpr ⟨by simp [Interval.point], List.pairwise_singleton _ _⟩
  unfold set
  simp only
  rw [if_pos h]
  refine ⟨_, rfl, rfl, ?_⟩
  intro y
  have hmember : contains b.ones y = b.member y := rfl
  have hbound : (b.range.contains y && b.member y) = b.member y := by
    cases hset : b.member y with
    | true =>
        rw [range_contains hset, Bool.and_self]
    | false =>
        exact Bool.and_false _
  rw [member_ofRanges]
  cases value with
  | true =>
      rw [if_pos rfl, contains_cons, Interval.contains_point, hmember]
      by_cases hy : y = x
      · simp [hy, h]
      · simp [hy, hbound]
  | false =>
      rw [if_neg Bool.false_ne_true, contains_difference hcanonical,
        contains_cons, contains_nil, Bool.or_false, Interval.contains_point,
        hmember]
      by_cases hy : y = x
      · simp [hy]
      · simp [hy, hbound]

theorem write_pack {b c : Bitmap} {x : Address} {value : Bool} {byte : UInt8}
    (h : b.range.contains x = true) (hrange : c.range = b.range)
    (hmember : ∀ y, c.member y = if y = x then value else b.member y)
    (hbyte : b.pack.data[(x - b.range.lo).toNat / 8]? = some byte) :
    (⟨b.range, b.pack.data.set ((x - b.range.lo).toNat / 8)
      (written byte (x - b.range.lo).toNat value)⟩ : Packed) = c.pack := by
  rcases bitOf_pack h with ⟨hin, hsum, _⟩
  apply pack_eq hrange.symm
  · rw [hrange, List.length_set, length_pack]
  · intro place
    rw [bitOf_set hbyte]
    rcases Nat.lt_or_ge place b.range.size with hlt | hge
    · rcases bitOf_pack_at b hlt with ⟨haddress, hbit⟩
      have hat : place = (x - b.range.lo).toNat ↔
          b.range.lo + UInt64.ofNat place = x := by
        rw [← UInt64.toNat_inj]
        omega
      rw [hbit, (bitOf_pack_at c (hrange ▸ hlt)).2, hrange, hmember]
      exact if_congr hat rfl rfl
    · rw [if_neg (by omega), bitOf_pack_of_le b hge,
        bitOf_pack_of_le c (hrange ▸ hge)]

theorem set?_pack (b : Bitmap) (x : Address) (value : Bool) :
    b.pack.set? x value =
      some ((Outcome.orElse b (b.set x value)).map pack) := by
  have hrange : b.pack.range = b.range := rfl
  unfold Packed.set? Packed.placeOf
  rw [hrange]
  cases h : b.range.contains x with
  | false =>
      rw [set_of_outside h, if_neg Bool.false_ne_true]
      rfl
  | true =>
      rcases exists_set h value with ⟨c, hset, hkept, hmember⟩
      rcases exists_byte h with ⟨byte, hbyte, _⟩
      rw [hset, if_pos rfl]
      simp only [hbyte, Option.map_some]
      rw [write_pack h hkept hmember hbyte]
      rfl

theorem run?_pack (b : Bitmap) (calls : List (Address × Bool)) :
    b.pack.run? calls = some (calls.foldl assign b).pack := by
  unfold Packed.run?
  induction calls generalizing b with
  | nil =>
      rfl
  | cons call rest ih =>
      rw [List.foldlM_cons, set?_pack, List.foldl_cons, ← ih]
      rfl

/-! ## Counting -/

theorem image_addresses (b : Bitmap) :
    (fun x : Address => (x - b.range.lo).toNat) '' b.addresses =
      ↑((Finset.range (8 * b.pack.data.length)).filter fun place =>
        bitOf b.pack.data.toArray place = true) := by
  ext place
  rw [Finset.coe_filter]
  constructor
  · rintro ⟨x, hx, rfl⟩
    rcases bitOf_pack (range_contains hx) with ⟨hin, _, hbit⟩
    have hplace : (x - b.range.lo).toNat < 8 * b.pack.data.length := by
      have hbyte := div_lt_length_pack b hin
      omega
    exact ⟨Finset.mem_range.mpr hplace, hbit.trans hx⟩
  · rintro ⟨_, hbit⟩
    have hin : place < b.range.size := by
      apply Nat.not_le.mp
      intro hle
      rw [bitOf_pack_of_le b hle] at hbit
      cases hbit
    rcases bitOf_pack_at b hin with ⟨haddress, hmember⟩
    refine ⟨b.range.lo + UInt64.ofNat place, hmember.symm.trans hbit, ?_⟩
    have hle : b.range.lo ≤ b.range.lo + UInt64.ofNat place := by
      rw [UInt64.le_iff_toNat_le, haddress]
      exact Nat.le_add_right _ _
    change (b.range.lo + UInt64.ofNat place - b.range.lo).toNat = place
    rw [UInt64.toNat_sub_of_le _ _ hle, haddress, Nat.add_sub_cancel_left]

theorem count_pack (b : Bitmap) : b.pack.count = b.count := by
  have hinjective : Function.Injective fun x : Address =>
      (x - b.range.lo).toNat := by
    intro x y hxy
    have hsame := UInt64.toNat_inj.mp hxy
    grind
  unfold Packed.count
  rw [sum_onesIn, Nat.count_eq_card_filter_range, ← Set.ncard_coe_finset,
    ← image_addresses, Set.ncard_image_of_injective _ hinjective,
    ncard_addresses]

/-! ## Finite maps -/

def lastSet (calls : List (Address × Bool)) (x : Address) : Option Bool :=
  (calls.reverse.find? fun call => call.1 = x).map Prod.snd

theorem lastSet_cons (call : Address × Bool)
    (rest : List (Address × Bool)) (x : Address) :
    lastSet (call :: rest) x =
      (lastSet rest x).or (if call.1 = x then some call.2 else none) := by
  unfold lastSet
  rw [List.reverse_cons, List.find?_append, List.find?_singleton]
  cases rest.reverse.find? fun call => call.1 = x with
  | none =>
      by_cases h : call.1 = x <;> simp [h]
  | some found =>
      simp

/-! ## Calls one after the other -/

theorem range_assign (b : Bitmap) (call : Address × Bool) :
    (b.assign call).range = b.range := by
  unfold assign
  cases h : b.set call.1 call.2 with
  | ok c =>
      exact range_set h
  | error error =>
      rfl

theorem member_assign {b : Bitmap} {x : Address}
    (hx : b.range.contains x = true) (call : Address × Bool) :
    (b.assign call).member x =
      if call.1 = x then call.2 else b.member x := by
  unfold assign
  cases h : b.range.contains call.1 with
  | true =>
      rcases exists_set h call.2 with ⟨c, hset, _, hmember⟩
      rw [hset]
      exact (hmember x).trans (if_congr eq_comm rfl rfl)
  | false =>
      have hother : call.1 ≠ x := by
        intro heq
        rw [heq, hx] at h
        cases h
      rw [set_of_outside h, if_neg hother]
      rfl

theorem range_foldl_assign (b : Bitmap) (calls : List (Address × Bool)) :
    (calls.foldl assign b).range = b.range := by
  induction calls generalizing b with
  | nil =>
      rfl
  | cons call rest ih =>
      exact (ih (b.assign call)).trans (range_assign b call)

/-- After any calls an address of the range has the bit that was set last. -/
theorem member_foldl_assign {b : Bitmap} {x : Address}
    (hx : b.range.contains x = true) (calls : List (Address × Bool)) :
    (calls.foldl assign b).member x =
      (lastSet calls x).getD (b.member x) := by
  induction calls generalizing b with
  | nil =>
      rfl
  | cons call rest ih =>
      have hin : (b.assign call).range.contains x = true := by
        rw [range_assign]
        exact hx
      rw [List.foldl_cons, ih hin, member_assign hx, lastSet_cons]
      cases lastSet rest x with
      | some value =>
          rfl
      | none =>
          by_cases h : call.1 = x
          · simp [h]
          · simp [h]

/-! ## Made bitmaps -/

/-- How a bitmap is made, in which bytes, and with which bits. -/
inductive Made : Bitmap → Packed → (Address → Bool) → Prop where
  | new {range b} :
      Bitmap.new range = .ok b → Made b (Packed.clear range) fun _ => false
  | ofRecord {record b} :
      Bitmap.ofRecord record = .ok b →
      Made b (Packed.ofRecord record) fun x =>
        bitOf record.data.toArray (x.toNat - record.range.start.toNat)

theorem new_eq_ok {range : AddressRange} {b : Bitmap}
    (h : Bitmap.new range = .ok b) :
    b.range = range ∧ ∀ x, b.member x = false := by
  unfold Bitmap.new at h
  split at h
  · cases h
  · split at h
    · cases h
    · cases h
      refine ⟨rfl, ?_⟩
      intro x
      rw [member_ofRanges, contains_nil, Bool.and_false]

theorem bitOf_replicate_zero (count place : Nat) :
    bitOf (List.replicate count 0).toArray place = false := by
  rw [bitOf_toArray, List.getElem?_replicate]
  split
  · exact Nat.zero_testBit _
  · exact Nat.zero_testBit _

theorem Made.pack {b : Bitmap} {p : Packed} {bit : Address → Bool}
    (h : Made b p bit) : p = b.pack := by
  cases h with
  | new hnew =>
      rcases new_eq_ok hnew with ⟨hrange, hnone⟩
      apply pack_eq hrange.symm
      · rw [hrange]
        exact List.length_replicate
      · intro place
        refine (bitOf_replicate_zero _ place).trans ?_
        rcases Nat.lt_or_ge place b.range.size with hlt | hge
        · rw [(bitOf_pack_at b hlt).2, hnone]
        · rw [bitOf_pack_of_le b hge]
  | ofRecord hread =>
      have hdata : b.toRecord.data = _ := congrArg _ (toRecord_ofRecord hread)
      unfold Packed.ofRecord Bitmap.pack
      rw [hdata, range_ofRecord hread]

theorem Made.member {b : Bitmap} {p : Packed} {bit : Address → Bool}
    (h : Made b p bit) {x : Address} (hx : b.range.contains x = true) :
    b.member x = bit x := by
  cases h with
  | new hnew =>
      exact (new_eq_ok hnew).2 x
  | ofRecord hread =>
      rw [member_ofRecord hread, holds, ← BitmapRecord.covered,
        ← range_ofRecord hread, hx, Bool.true_and]

/-! ## What bitmaps are -/

/-- A bitmap as a map: it gives the addresses of a range their bits, refuses all
others, and counts the bits that are set. -/
structure IsMap (range : AddressRange) (bit : Address → Bool) (b : Bitmap) :
    Prop where
  range_eq : b.range = range
  get_inside : ∀ x, range.contains x = true → b.get x = .ok (bit x)
  get_outside : ∀ x, range.contains x = false →
    b.get x = .error (.outsideBitmap x range)
  set_inside : ∀ x value, range.contains x = true →
    ∃ c, b.set x value = .ok c
  set_outside : ∀ x value, range.contains x = false →
    b.set x value = .error (.outsideBitmap x range)
  invalid : ∀ x, (Error.outsideBitmap x range).kind = .invalidArgument
  count_eq : b.count = {x | range.contains x = true ∧ bit x = true}.ncard

/-- Bytes that stand for a bitmap: as many as its bits need, with zeros after
the last address. No byte is missed in reading or writing them, and what is read
and what writing leaves is the same as in the bitmap. -/
structure Stores (p : Packed) (b : Bitmap) : Prop where
  length : p.data.length = max 1 ((b.range.size + 7) / 8)
  padding : ∀ place, b.range.size ≤ place →
    bitOf p.data.toArray place = false
  reached : ∀ place, place < b.range.size → place / 8 < p.data.length
  get : ∀ x, p.get? x = some (b.get x)
  set : ∀ x value,
    p.set? x value = some ((Outcome.orElse b (b.set x value)).map pack)
  set_outside : ∀ x value, b.range.contains x = false →
    p.set? x value = some (.refused p (.outsideBitmap x b.range))
  count : p.count = b.count

theorem isMap_of_member {b : Bitmap} {bit : Address → Bool}
    (h : ∀ x, b.range.contains x = true → b.member x = bit x) :
    IsMap b.range bit b := by
  have haddresses : b.addresses =
      {x | b.range.contains x = true ∧ bit x = true} := by
    ext x
    change b.member x = true ↔ b.range.contains x = true ∧ bit x = true
    constructor
    · intro hmember
      have hin := range_contains hmember
      exact ⟨hin, (h x hin).symm.trans hmember⟩
    · intro hbit
      exact (h x hbit.1).trans hbit.2
  exact {
    range_eq := rfl
    get_inside := by
      intro x hin
      rw [get, if_pos hin, h x hin]
    get_outside := by
      intro x hout
      rw [get, if_neg (by simp [hout])]
    set_inside := by
      intro x value hin
      rcases exists_set hin value with ⟨c, hset, _⟩
      exact ⟨c, hset⟩
    set_outside := fun x value hout => set_of_outside hout value
    invalid := fun _ => rfl
    count_eq := by
      rw [← ncard_addresses, haddresses] }

theorem stores_pack (b : Bitmap) : Stores b.pack b where
  length := length_pack b
  padding := fun _ => bitOf_pack_of_le b
  reached := fun _ => div_lt_length_pack b
  get := get?_pack b
  set := set?_pack b
  set_outside := by
    intro x value hout
    rw [set?_pack, set_of_outside hout]
    rfl
  count := count_pack b

/-- However a bitmap is made and whichever bits are set or cleared in it, it is
the map from its range to the bits that were set last, and the bytes with which
it is made go along with it, none of them ever missing. -/
theorem bitmaps_are_finite_maps {b : Bitmap} {p : Packed}
    {bit : Address → Bool} (h : Made b p bit)
    (calls : List (Address × Bool)) :
    IsMap b.range (fun x => (lastSet calls x).getD (bit x))
        (calls.foldl assign b) ∧
      ∃ q, p.run? calls = some q ∧ Stores q (calls.foldl assign b) := by
  have hrun : p.run? calls = some (calls.foldl assign b).pack := by
    rw [h.pack, run?_pack]
  have hrange := range_foldl_assign b calls
  refine ⟨?_, _, hrun, stores_pack _⟩
  rw [← hrange]
  apply isMap_of_member
  intro x hx
  rw [hrange] at hx
  rw [member_foldl_assign hx, h.member hx]

def callsAtTheEnd : List (Address × Bool) :=
  [(0xFFFFFFFFFFFFFFFF, false), (0, true), (0xFFFFFFFFFFFFFFF6, true)]

theorem bitmaps_are_finite_maps_up_to_last_address :
    ∃ b, ofRecord lastEleven = .ok b ∧
      (callsAtTheEnd.foldl assign b).get 0xFFFFFFFFFFFFFFFF = .ok false ∧
      (callsAtTheEnd.foldl assign b).get 0 =
        .error (.outsideBitmap 0 b.range) ∧
      (callsAtTheEnd.foldl assign b).count = 7 ∧
      (Packed.ofRecord lastEleven).run? callsAtTheEnd =
        some ⟨b.range, [0xA7, 0x03]⟩ := by
  have hformed : lastEleven.WellFormed :=
    ⟨by decide, by decide, by decide, by decide⟩
  rcases (ofRecord_ok_iff lastEleven).mpr hformed with ⟨b, hb⟩
  have hrange : b.range = ⟨0xFFFFFFFFFFFFFFF5, 0xFFFFFFFFFFFFFFFF⟩ :=
    range_ofRecord hb
  have hbytes : (Packed.ofRecord lastEleven).run? callsAtTheEnd =
      some ⟨b.range, [0xA7, 0x03]⟩ := by
    rw [hrange]
    decide
  rcases bitmaps_are_finite_maps (.ofRecord hb) callsAtTheEnd with
    ⟨hmap, q, hq, hstores⟩
  cases hq.symm.trans hbytes
  refine ⟨b, hb, ?_, ?_, hstores.count.symm.trans ?_, hbytes⟩
  · exact hmap.get_inside 0xFFFFFFFFFFFFFFFF (by rw [hrange]; decide)
  · exact hmap.get_outside 0 (by rw [hrange]; decide)
  · change ([0xA7, 0x03].map onesIn).sum = 7
    decide

end Bitmap
end CudaProfile
