import Mathlib.Algebra.CharP.Two
import Mathlib.Algebra.Field.ZMod
import Mathlib.Algebra.Polynomial.Div
import Mathlib.Data.Nat.Bitwise
import CudaProfile.Crc64
/-!
# Checksums are remainders

The bits of a word are the coefficients of a polynomial over the field of two
elements, and those of a message, one byte after the other and the highest bit
first, are the coefficients of a longer one. The checksum of a message is the
remainder of its polynomial, raised by 64 places, on division by the generator.

A bit that is shifted in and a byte that goes through the table are two ways to
go on with a division: both leave the remainder of the message so far. Since
only one word stands for a remainder, both ways lead to the same word.
-/

namespace CudaProfile
namespace Crc64

open Polynomial

/-! ## Bit by bit -/

def bitsOf (byte : UInt8) : List Bool :=
  [7, 6, 5, 4, 3, 2, 1, 0].map byte.toNat.testBit

/-- The remainder after a further bit of a message. It is shifted by one place,
and the generator is subtracted if what is shifted out differs from the bit. -/
def shiftIn (crc : UInt64) (bit : Bool) : UInt64 :=
  if crc.toNat.testBit 63 = bit then crc <<< 1
  else (crc <<< 1) ^^^ 0x42F0E1EBA9EA3693

/-- The checksum of a message, taken bit by bit. -/
def serial (bytes : List UInt8) : UInt64 :=
  (bytes.flatMap bitsOf).foldl shiftIn 0

/-! ## Words as polynomials -/

noncomputable def ofWord (w : UInt64) : (ZMod 2)[X] :=
  ∑ i ∈ (Finset.range 64).filter fun i => w.toNat.testBit i, X ^ i

theorem testBit_eq_false_of_le (w : UInt64) {i : Nat} (h : 64 ≤ i) :
    w.toNat.testBit i = false :=
  Nat.testBit_lt_two_pow
    (Nat.lt_of_lt_of_le w.toNat_lt (Nat.pow_le_pow_right (by decide) h))

theorem coeff_ofWord (w : UInt64) (i : Nat) :
    (ofWord w).coeff i = if w.toNat.testBit i then 1 else 0 := by
  unfold ofWord
  rw [finsetSum_coeff]
  simp only [coeff_X_pow, Finset.sum_ite_eq, Finset.mem_filter,
    Finset.mem_range]
  rcases Nat.lt_or_ge i 64 with hi | hi
  · simp [hi]
  · simp [testBit_eq_false_of_le w hi]

theorem degree_ofWord_lt (w : UInt64) : (ofWord w).degree < 64 := by
  refine (degree_lt_iff_coeff_zero _ 64).mpr ?_
  intro i hi
  rw [coeff_ofWord, testBit_eq_false_of_le w hi]
  rfl

theorem ofWord_injective : Function.Injective ofWord := by
  intro v w h
  apply UInt64.toNat_inj.mp
  apply Nat.eq_of_testBit_eq
  intro i
  have hcoeff := congrArg (fun f => f.coeff i) h
  simp only [coeff_ofWord] at hcoeff
  cases hv : v.toNat.testBit i <;> cases hw : w.toNat.testBit i <;>
    simp_all

@[simp] theorem ofWord_zero : ofWord 0 = 0 := by
  ext i
  simp [coeff_ofWord]

theorem ofWord_xor (v w : UInt64) :
    ofWord (v ^^^ w) = ofWord v + ofWord w := by
  ext i
  rw [coeff_add, coeff_ofWord, coeff_ofWord, coeff_ofWord, UInt64.toNat_xor,
    Nat.testBit_xor]
  cases v.toNat.testBit i <;> cases w.toNat.testBit i <;> decide

/-- Shifting raises the polynomial, and what is shifted out is what the other
shift by the rest of the word leaves. -/
theorem X_pow_mul_ofWord (w : UInt64) {n : UInt64} (hpos : 0 < n.toNat)
    (hn : n.toNat < 64) :
    X ^ n.toNat * ofWord w =
      ofWord (w <<< n) + X ^ 64 * ofWord (w >>> (64 - n)) := by
  have hrest : (64 - n).toNat = 64 - n.toNat :=
    UInt64.toNat_sub_of_le _ _ (UInt64.le_iff_toNat_le.mpr (Nat.le_of_lt hn))
  ext i
  rw [coeff_X_pow_mul', coeff_add, coeff_X_pow_mul', coeff_ofWord,
    coeff_ofWord, coeff_ofWord, UInt64.toNat_shiftLeft,
    UInt64.toNat_shiftRight, hrest, Nat.mod_eq_of_lt hn,
    Nat.mod_eq_of_lt (Nat.sub_lt (by decide) hpos), Nat.testBit_mod_two_pow,
    Nat.testBit_shiftLeft, Nat.testBit_shiftRight]
  rcases Nat.lt_or_ge i 64 with hi | hi
  · rw [if_neg (Nat.not_le.mpr hi), add_zero]
    by_cases hle : n.toNat ≤ i
    · simp [hi, hle]
    · simp [hle]
  · have hplace : 64 - n.toNat + (i - 64) = i - n.toNat := by omega
    simp [hi, Nat.not_lt.mpr hi, Nat.le_trans (Nat.le_of_lt hn) hi, hplace]

/-! ## The generator -/

def exponents : Finset Nat :=
  {64, 62, 57, 55, 54, 53, 52, 47, 46, 45, 40, 39, 38, 37, 35, 33, 32, 31, 29,
    27, 24, 23, 22, 21, 19, 17, 13, 12, 10, 9, 7, 4, 1, 0}

noncomputable def generator : (ZMod 2)[X] :=
  ∑ i ∈ exponents, X ^ i

theorem generator_eq : generator = X ^ 64 + ofWord polynomial := by
  have hexponents : exponents =
      insert 64 ((Finset.range 64).filter fun i =>
        polynomial.toNat.testBit i) := by
    decide +kernel
  unfold generator ofWord
  rw [hexponents, Finset.sum_insert (by simp)]

theorem monic_generator : generator.Monic := by
  rw [generator_eq]
  exact monic_X_pow_add (degree_ofWord_lt polynomial)

theorem degree_generator : generator.degree = 64 := by
  rw [generator_eq, degree_add_eq_left_of_degree_lt]
  · exact degree_X_pow 64
  · rw [degree_X_pow]
    exact degree_ofWord_lt polynomial

/-! ## Remainders -/

/-- A word is the remainder of a polynomial. -/
def Leaves (f : (ZMod 2)[X]) (w : UInt64) : Prop :=
  f %ₘ generator = ofWord w

theorem leaves_iff {f : (ZMod 2)[X]} {w : UInt64} :
    Leaves f w ↔ generator ∣ f - ofWord w := by
  have hself : ofWord w %ₘ generator = ofWord w := by
    rw [modByMonic_eq_self_iff monic_generator, degree_generator]
    exact degree_ofWord_lt w
  unfold Leaves
  constructor
  · intro h
    rw [← h]
    exact ⟨f /ₘ generator, sub_eq_of_eq_add' (modByMonic_add_div f _).symm⟩
  · intro h
    rw [modByMonic_eq_of_dvd_sub monic_generator h, hself]

theorem leaves_zero : Leaves 0 0 := by
  unfold Leaves
  rw [zero_modByMonic, ofWord_zero]

section Division

variable {f g : (ZMod 2)[X]} {v w : UInt64}

theorem Leaves.unique (hv : Leaves f v) (hw : Leaves f w) : v = w :=
  ofWord_injective (hv.symm.trans hw)

theorem Leaves.add (hv : Leaves f v) (hw : Leaves g w) :
    Leaves (f + g) (v ^^^ w) := by
  rw [leaves_iff] at *
  rw [ofWord_xor, add_sub_add_comm]
  exact dvd_add hv hw

theorem Leaves.congr (h : Leaves f w) (hdiff : generator ∣ g - f) :
    Leaves g w := by
  rw [leaves_iff] at *
  have hsum := dvd_add hdiff h
  rwa [sub_add_sub_cancel] at hsum

theorem Leaves.mul_add (h : Leaves f w) {k : (ZMod 2)[X]}
    (hnext : Leaves (k * ofWord w + g) v) : Leaves (k * f + g) v := by
  refine hnext.congr ?_
  rw [add_sub_add_right_eq_sub, ← mul_sub]
  exact dvd_mul_of_dvd_right (leaves_iff.mp h) k

theorem leaves_ofWord (w : UInt64) : Leaves (ofWord w) w := by
  rw [leaves_iff, sub_self]
  exact dvd_zero _

theorem leaves_X_pow : Leaves (X ^ 64) polynomial := by
  rw [leaves_iff, CharTwo.sub_eq_add, generator_eq]

end Division

/-! ## One bit further -/

theorem ofWord_shiftRight_63 (w : UInt64) :
    ofWord (w >>> 63) = if w.toNat.testBit 63 then 1 else 0 := by
  ext i
  rw [coeff_ofWord, UInt64.toNat_shiftRight, Nat.testBit_shiftRight]
  change (if w.toNat.testBit (63 + i) then 1 else 0) = _
  cases i with
  | zero =>
      cases w.toNat.testBit 63 <;> simp
  | succ i =>
      rw [testBit_eq_false_of_le w (by omega)]
      cases w.toNat.testBit 63 <;> simp [coeff_one]

theorem X_mul_ofWord (w : UInt64) :
    X * ofWord w =
      ofWord (w <<< 1) + X ^ 64 * if w.toNat.testBit 63 then 1 else 0 := by
  have hshift := X_pow_mul_ofWord w (n := 1) (by decide) (by decide)
  have hone : (1 : UInt64).toNat = 1 := rfl
  have hrest : (64 - 1 : UInt64) = 63 := rfl
  rw [hone, hrest, pow_one, ofWord_shiftRight_63] at hshift
  exact hshift

noncomputable def withBit (f : (ZMod 2)[X]) (bit : Bool) : (ZMod 2)[X] :=
  X * f + if bit then 1 else 0

noncomputable def message (bytes : List UInt8) : (ZMod 2)[X] :=
  (bytes.flatMap bitsOf).foldl withBit 0

theorem leaves_shiftIn (w : UInt64) (bit : Bool) :
    Leaves (X * ofWord w + X ^ 64 * if bit then 1 else 0) (shiftIn w bit) := by
  have hsame : (0x42F0E1EBA9EA3693 : UInt64) = polynomial := rfl
  have hshifted := leaves_ofWord (w <<< 1)
  rw [X_mul_ofWord, add_assoc, shiftIn, hsame]
  -- Two equal bits cancel out, and of two others one is zero.
  cases w.toNat.testBit 63 <;> cases bit
  · simpa using hshifted
  · simpa using hshifted.add leaves_X_pow
  · simpa using hshifted.add leaves_X_pow
  · simpa [CharTwo.add_self_eq_zero] using hshifted

section Division

variable {f : (ZMod 2)[X]} {w : UInt64}

theorem Leaves.shiftIn (h : Leaves (X ^ 64 * f) w) (bit : Bool) :
    Leaves (X ^ 64 * withBit f bit) (shiftIn w bit) := by
  have hraised : X ^ 64 * withBit f bit =
      X * (X ^ 64 * f) + X ^ 64 * if bit then 1 else 0 := by
    unfold withBit
    ring
  rw [hraised]
  exact h.mul_add (leaves_shiftIn w bit)

theorem Leaves.foldl_shiftIn (h : Leaves (X ^ 64 * f) w) (bits : List Bool) :
    Leaves (X ^ 64 * bits.foldl withBit f) (bits.foldl Crc64.shiftIn w) := by
  induction bits generalizing f w with
  | nil =>
      exact h
  | cons bit rest ih =>
      exact ih (h.shiftIn bit)

end Division

/-! ## One byte further -/

theorem shiftBit_eq (w : UInt64) : shiftBit w = shiftIn w false := by
  have hmask : (0x8000000000000000 : UInt64).toNat = 2 ^ 63 := rfl
  have htop : w &&& 0x8000000000000000 = 0 ↔ w.toNat.testBit 63 = false := by
    rw [← UInt64.toNat_inj, UInt64.toNat_and, hmask, Nat.and_two_pow]
    cases w.toNat.testBit 63 <;> simp
  unfold shiftBit shiftIn
  rw [ite_not]
  exact if_congr htop rfl rfl

theorem ofWord_toUInt64 (byte : UInt8) :
    ofWord byte.toUInt64 = ∑ i ∈ Finset.range 8,
      X ^ i * if byte.toNat.testBit i then 1 else 0 := by
  have hterm : ∀ i, (X ^ i * if byte.toNat.testBit i then 1 else 0 :
      (ZMod 2)[X]) = if byte.toNat.testBit i then X ^ i else 0 := by
    intro i
    rw [mul_ite, mul_one, mul_zero]
  ext i
  simp only [hterm, ← Finset.sum_filter]
  rw [coeff_ofWord, finsetSum_coeff, UInt8.toNat_toUInt64]
  simp only [coeff_X_pow, Finset.sum_ite_eq, Finset.mem_filter,
    Finset.mem_range]
  rcases Nat.lt_or_ge i 8 with hi | hi
  · simp [hi]
  · have hout : byte.toNat.testBit i = false :=
      Nat.testBit_lt_two_pow (Nat.lt_of_lt_of_le byte.toNat_lt
        (Nat.pow_le_pow_right (by decide) hi))
    simp [hout]

theorem foldl_bitsOf (f : (ZMod 2)[X]) (byte : UInt8) :
    (bitsOf byte).foldl withBit f = X ^ 8 * f + ofWord byte.toUInt64 := by
  rw [ofWord_toUInt64]
  simp only [bitsOf, List.map_cons, List.map_nil, List.foldl_cons,
    List.foldl_nil, withBit, Finset.sum_range_succ, Finset.sum_range_zero]
  ring

theorem toNat_shiftRight_56_lt (w : UInt64) : (w >>> 56).toNat < 2 ^ 8 := by
  have hlt := w.toNat_lt
  rw [UInt64.toNat_shiftRight, Nat.shiftRight_eq_div_pow]
  change w.toNat / 2 ^ 56 < 2 ^ 8
  omega

def indexOf (w : UInt64) (byte : UInt8) : UInt64 :=
  (w >>> 56) ^^^ byte.toUInt64

theorem toNat_indexOf_lt (w : UInt64) (byte : UInt8) :
    (indexOf w byte).toNat < 2 ^ 8 := by
  unfold indexOf
  rw [UInt64.toNat_xor, UInt8.toNat_toUInt64]
  exact Nat.xor_lt_two_pow (toNat_shiftRight_56_lt w) byte.toNat_lt

theorem get_table (i : Fin 256) :
    table.get i = shiftBits 8 (UInt64.ofNat i.val <<< 56) := by
  have hget : table.get i = table[i.val] := rfl
  rw [hget, table, Vector.getElem_ofFn]

theorem step_eq (w : UInt64) (byte : UInt8) :
    step w byte = (w <<< 8) ^^^ shiftBits 8 (indexOf w byte <<< 56) := by
  have hindex : UInt64.ofNat ((w >>> 56).toUInt8 ^^^ byte).toNat =
      indexOf w byte := by
    apply UInt64.toNat_inj.mp
    rw [UInt64.toNat_ofNat_of_lt' (Nat.lt_trans (UInt8.toNat_lt _) (by decide)),
      UInt8.toNat_xor, UInt64.toNat_toUInt8,
      Nat.mod_eq_of_lt (toNat_shiftRight_56_lt w), indexOf, UInt64.toNat_xor,
      UInt8.toNat_toUInt64]
  unfold step
  simp only
  rw [get_table, hindex]

theorem X_pow_mul_ofWord_indexOf (w : UInt64) (byte : UInt8) :
    X ^ 56 * ofWord (indexOf w byte) = ofWord (indexOf w byte <<< 56) := by
  have hshift := X_pow_mul_ofWord (indexOf w byte) (n := 56) (by decide)
    (by decide)
  have hfifty : (56 : UInt64).toNat = 56 := rfl
  have hrest : (64 - 56 : UInt64) = 8 := rfl
  have hnone : indexOf w byte >>> 8 = 0 := by
    apply UInt64.toNat_inj.mp
    rw [UInt64.toNat_shiftRight, Nat.shiftRight_eq_div_pow]
    exact Nat.div_eq_of_lt (toNat_indexOf_lt w byte)
  rw [hfifty, hrest, hnone, ofWord_zero, mul_zero, add_zero] at hshift
  exact hshift

section Division

variable {f : (ZMod 2)[X]} {w : UInt64}

theorem Leaves.shiftBit (h : Leaves f w) : Leaves (X * f) (shiftBit w) := by
  have hnext := leaves_shiftIn w false
  rw [← shiftBit_eq, if_neg Bool.false_ne_true, mul_zero] at hnext
  simpa using h.mul_add hnext

theorem Leaves.shiftBits (h : Leaves f w) (n : Nat) :
    Leaves (X ^ n * f) (shiftBits n w) := by
  induction n generalizing f w with
  | zero =>
      rw [pow_zero, one_mul]
      exact h
  | succ n ih =>
      rw [pow_succ, mul_assoc]
      exact ih h.shiftBit

theorem leaves_step (w : UInt64) (byte : UInt8) :
    Leaves (X ^ 8 * ofWord w + X ^ 64 * ofWord byte.toUInt64)
      (step w byte) := by
  have hshift := X_pow_mul_ofWord w (n := 8) (by decide) (by decide)
  have height : (8 : UInt64).toNat = 8 := rfl
  have hrest : (64 - 8 : UInt64) = 56 := rfl
  rw [height, hrest] at hshift
  have hindex : ofWord (w >>> 56) + ofWord byte.toUInt64 =
      ofWord (indexOf w byte) :=
    (ofWord_xor _ _).symm
  have hentry : X ^ 64 * ofWord (indexOf w byte) =
      X ^ 8 * ofWord (indexOf w byte <<< 56) := by
    rw [← X_pow_mul_ofWord_indexOf]
    ring
  rw [hshift, add_assoc, ← mul_add, hindex, hentry, step_eq]
  exact (leaves_ofWord _).add ((leaves_ofWord _).shiftBits 8)

theorem Leaves.step (h : Leaves (X ^ 64 * f) w) (byte : UInt8) :
    Leaves (X ^ 64 * (X ^ 8 * f + ofWord byte.toUInt64)) (step w byte) := by
  have hraised : X ^ 64 * (X ^ 8 * f + ofWord byte.toUInt64) =
      X ^ 8 * (X ^ 64 * f) + X ^ 64 * ofWord byte.toUInt64 := by
    ring
  rw [hraised]
  exact h.mul_add (leaves_step w byte)

theorem Leaves.update (h : Leaves (X ^ 64 * f) w) (bytes : List UInt8) :
    Leaves (X ^ 64 * (bytes.flatMap bitsOf).foldl withBit f)
      (update w bytes) := by
  induction bytes generalizing f w with
  | nil =>
      exact h
  | cons byte rest ih =>
      rw [List.flatMap_cons, List.foldl_append, foldl_bitsOf]
      exact ih (h.step byte)

end Division

/-! ## Checksums -/

theorem foldl_update (crc : UInt64) (chunks : List (List UInt8)) :
    chunks.foldl update crc = update crc chunks.flatten := by
  induction chunks generalizing crc with
  | nil =>
      rfl
  | cons chunk rest ih =>
      rw [List.foldl_cons, ih, List.flatten_cons, update_append]

/-- In whatever chunks a message comes, its checksum is the one that is taken
bit by bit: the remainder of its polynomial, raised by 64 places, on division by
the generator. -/
theorem checksum_is_remainder (chunks : List (List UInt8)) :
    chunks.foldl update 0 = serial chunks.flatten ∧
      ofWord (chunks.foldl update 0) =
        (X ^ 64 * message chunks.flatten) %ₘ generator := by
  have hstart : Leaves (X ^ 64 * 0) 0 := by
    rw [mul_zero]
    exact leaves_zero
  have htable := hstart.update chunks.flatten
  have hserial := hstart.foldl_shiftIn (chunks.flatten.flatMap bitsOf)
  rw [foldl_update]
  exact ⟨htable.unique hserial, htable.symm⟩

/-- The digits from one to nine in two chunks. -/
example :
    [[0x31, 0x32, 0x33, 0x34], [0x35, 0x36, 0x37, 0x38, 0x39]].foldl update 0 =
      0x6C40DF5F0B497347 := by
  decide +kernel

end Crc64
end CudaProfile
