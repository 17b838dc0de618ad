import Mathlib
import CudaProfile.Proofs.Lists
import CudaProfile.Wire.Format
/-!
# Exact formats

A format is exact when reading undoes writing and accepts nothing else. Numbers
of a fixed width are exact, and every way of building a format from others
keeps it exact, so that the formats of records are exact by their shape alone.
What limits the values is only that lengths are written in 64 bits.
-/

namespace CudaProfile

namespace Wire
namespace Format

variable {α β : Type}

/-- What is read from the front of a byte string is a writable value, and the
bytes taken are just the ones that it is written in. -/
def Exact (f : Format α) (writable : α → Prop) : Prop :=
  ∀ bytes a rest,
    f.get bytes = .ok (a, rest) ↔ writable a ∧ bytes = f.put a ++ rest

theorem Exact.congr {f : Format α} {writable writable' : α → Prop}
    (hf : Exact f writable) (h : ∀ a, writable a ↔ writable' a) :
    Exact f writable' := by
  intro bytes a rest
  rw [hf bytes a rest, h a]

/-! ## Numbers -/

theorem length_littleEndian (width n : Nat) :
    (littleEndian width n).length = width := by
  induction width generalizing n with
  | zero =>
      rfl
  | succ width ih =>
      simp [littleEndian, ih]

theorem ofLittleEndian_littleEndian {width n : Nat} (h : n < 256 ^ width) :
    ofLittleEndian (littleEndian width n) = n := by
  induction width generalizing n with
  | zero =>
      have hzero : n = 0 := by simpa using h
      subst hzero
      rfl
  | succ width ih =>
      have hdiv : n / 256 < 256 ^ width := by
        rw [Nat.pow_succ] at h
        exact Nat.div_lt_of_lt_mul (by omega)
      rw [littleEndian, ofLittleEndian, ih hdiv, UInt8.toNat_ofNat']
      omega

theorem ofLittleEndian_lt (bytes : Bytes) :
    ofLittleEndian bytes < 256 ^ bytes.length := by
  induction bytes with
  | nil =>
      exact Nat.one_pos
  | cons byte rest ih =>
      have hbyte := byte.toNat_lt
      rw [ofLittleEndian, List.length_cons, Nat.pow_succ]
      omega

theorem littleEndian_ofLittleEndian (bytes : Bytes) :
    littleEndian bytes.length (ofLittleEndian bytes) = bytes := by
  induction bytes with
  | nil =>
      rfl
  | cons byte rest ih =>
      have hbyte := byte.toNat_lt
      have hlow :
          UInt8.ofNat (byte.toNat + 256 * ofLittleEndian rest) = byte := by
        apply UInt8.toNat_inj.mp
        rw [UInt8.toNat_ofNat']
        omega
      have hhigh : (byte.toNat + 256 * ofLittleEndian rest) / 256 =
          ofLittleEndian rest := by omega
      rw [ofLittleEndian, List.length_cons, littleEndian, hlow, hhigh, ih]

theorem split_eq_ok_iff {fault : Fault} {length : Nat}
    {bytes taken rest : Bytes} :
    split fault length bytes = .ok (taken, rest) ↔
      taken.length = length ∧ bytes = taken ++ rest := by
  unfold split
  constructor
  · intro h
    simp only at h
    split at h
    · next hlength =>
      cases h
      exact ⟨hlength, (List.take_append_drop length bytes).symm⟩
    · cases h
  · intro hwritten
    rcases hwritten with ⟨rfl, rfl⟩
    simp

theorem exact_number (width : Nat) :
    Exact (number width) fun n => n < 256 ^ width := by
  intro bytes n rest
  change (split .endOfBytes width bytes >>= fun v =>
    pure (ofLittleEndian v.1, v.2)) = .ok (n, rest) ↔ _
  rw [bind_eq_ok_iff]
  constructor
  · intro hread
    rcases hread with ⟨⟨taken, left⟩, hsplit, hvalue⟩
    cases hvalue
    rcases split_eq_ok_iff.mp hsplit with ⟨rfl, rfl⟩
    refine ⟨ofLittleEndian_lt taken, ?_⟩
    change _ = littleEndian _ _ ++ _
    rw [littleEndian_ofLittleEndian]
  · intro hwritten
    rcases hwritten with ⟨hlt, rfl⟩
    refine ⟨(littleEndian width n, rest), ?_, ?_⟩
    · exact split_eq_ok_iff.mpr ⟨length_littleEndian width n, rfl⟩
    · simp only
      rw [ofLittleEndian_littleEndian hlt]
      rfl

theorem exact_through {f : Format α} {writable : α → Prop}
    (hf : Exact f writable) (there : α → β) (back : β → α)
    (hthere : ∀ b, there (back b) = b)
    (hback : ∀ a, writable a → back (there a) = a) :
    Exact (f.through there back) fun b => writable (back b) := by
  intro bytes b rest
  change (f.get bytes >>= fun v => pure (there v.1, v.2)) = .ok (b, rest) ↔ _
  rw [bind_eq_ok_iff]
  constructor
  · intro hread
    rcases hread with ⟨⟨a, left⟩, hget, hvalue⟩
    cases hvalue
    rcases (hf bytes a left).mp hget with ⟨ha, hbytes⟩
    change writable (back (there a)) ∧ bytes = f.put (back (there a)) ++ left
    rw [hback a ha]
    exact ⟨ha, hbytes⟩
  · intro hwritten
    rcases hwritten with ⟨hb, hbytes⟩
    refine ⟨(back b, rest), (hf bytes (back b) rest).mpr ⟨hb, hbytes⟩, ?_⟩
    simp only
    rw [hthere]
    rfl

theorem exact_word8 : Exact word8 fun _ => True := by
  have h := exact_through (exact_number 1) UInt8.ofNat UInt8.toNat
    (fun _ => UInt8.ofNat_toNat) (fun _ hn => UInt8.toNat_ofNat_of_lt' hn)
  exact h.congr fun byte => iff_true_intro byte.toNat_lt

theorem exact_word32 : Exact word32 fun _ => True := by
  have h := exact_through (exact_number 4) UInt32.ofNat UInt32.toNat
    (fun _ => UInt32.ofNat_toNat) (fun _ hn => UInt32.toNat_ofNat_of_lt' hn)
  exact h.congr fun word => iff_true_intro word.toNat_lt

theorem exact_word64 : Exact word64 fun _ => True := by
  have h := exact_through (exact_number 8) UInt64.ofNat UInt64.toNat
    (fun _ => UInt64.ofNat_toNat) (fun _ hn => UInt64.toNat_ofNat_of_lt' hn)
  exact h.congr fun word => iff_true_intro word.toNat_lt

theorem exact_int32 : Exact int32 fun _ => True :=
  exact_through exact_word32 _ _ (fun _ => rfl) (fun _ _ => rfl)

theorem exact_flag : Exact flag fun _ => True := by
  intro bytes b rest
  change (word8.get bytes >>= _) = .ok (b, rest) ↔ _
  rw [bind_eq_ok_iff]
  constructor
  · intro hread
    rcases hread with ⟨⟨byte, left⟩, hget, hvalue⟩
    have hbytes := ((exact_word8 bytes byte left).mp hget).2
    simp only at hvalue
    split at hvalue
    · next hzero =>
      cases hvalue
      subst hzero
      exact ⟨trivial, hbytes⟩
    · split at hvalue
      · next hone =>
        cases hvalue
        subst hone
        exact ⟨trivial, hbytes⟩
      · cases hvalue
  · intro hwritten
    rcases hwritten with ⟨_, rfl⟩
    cases b with
    | false =>
        exact ⟨(0, rest), (exact_word8 _ 0 rest).mpr ⟨trivial, rfl⟩, rfl⟩
    | true =>
        exact ⟨(1, rest), (exact_word8 _ 1 rest).mpr ⟨trivial, rfl⟩, rfl⟩

/-! ## Compound values -/

theorem exact_pair {f : Format α} {g : Format β} {writable : α → Prop}
    {writable' : β → Prop} (hf : Exact f writable) (hg : Exact g writable') :
    Exact (f.pair g) fun v => writable v.1 ∧ writable' v.2 := by
  intro bytes value rest
  rcases value with ⟨a, b⟩
  change (f.get bytes >>= fun v => g.get v.2 >>= fun w =>
    pure ((v.1, w.1), w.2)) = .ok ((a, b), rest) ↔ _
  rw [bind_eq_ok_iff]
  constructor
  · intro hread
    rcases hread with ⟨⟨a, left⟩, hget, hmore⟩
    rcases bind_eq_ok_iff.mp hmore with ⟨⟨b, left⟩, hget', hvalue⟩
    cases hvalue
    rcases (hf bytes a _).mp hget with ⟨ha, rfl⟩
    rcases (hg _ b _).mp hget' with ⟨hb, rfl⟩
    exact ⟨⟨ha, hb⟩, (List.append_assoc _ _ _).symm⟩
  · intro hwritten
    rcases hwritten with ⟨⟨ha, hb⟩, rfl⟩
    refine ⟨(a, g.put b ++ rest), ?_, ?_⟩
    · exact (hf _ _ _).mpr ⟨ha, List.append_assoc _ _ _⟩
    · exact bind_eq_ok_iff.mpr ⟨(b, rest), (hg _ _ _).mpr ⟨hb, rfl⟩, rfl⟩

theorem getMany_eq_ok_iff {f : Format α} {writable : α → Prop}
    (hf : Exact f writable) {count : Nat} {bytes rest : Bytes}
    {values : List α} :
    getMany f count bytes = .ok (values, rest) ↔
      values.length = count ∧ (∀ a ∈ values, writable a) ∧
        bytes = values.flatMap f.put ++ rest := by
  induction count generalizing bytes values with
  | zero =>
      constructor
      · intro h
        cases h
        simp
      · intro hwritten
        rcases hwritten with ⟨hlength, _, rfl⟩
        rw [List.length_eq_zero_iff.mp hlength]
        rfl
  | succ count ih =>
      change (f.get bytes >>= fun v => getMany f count v.2 >>= fun w =>
        pure (v.1 :: w.1, w.2)) = .ok (values, rest) ↔ _
      rw [bind_eq_ok_iff]
      constructor
      · intro hread
        rcases hread with ⟨⟨a, left⟩, hget, hmore⟩
        rcases bind_eq_ok_iff.mp hmore with ⟨⟨others, left⟩, hget', hvalue⟩
        cases hvalue
        rcases (hf bytes a _).mp hget with ⟨ha, rfl⟩
        rcases ih.mp hget' with ⟨hlength, hothers, rfl⟩
        refine ⟨by simp [hlength], List.forall_mem_cons.mpr ⟨ha, hothers⟩, ?_⟩
        simp
      · intro hwritten
        rcases hwritten with ⟨hlength, hvalues, rfl⟩
        cases values with
        | nil =>
            cases hlength
        | cons a others =>
            rcases List.forall_mem_cons.mp hvalues with ⟨ha, hothers⟩
            refine ⟨(a, others.flatMap f.put ++ rest), ?_, ?_⟩
            · exact (hf _ _ _).mpr ⟨ha, by simp⟩
            · refine bind_eq_ok_iff.mpr ⟨(others, rest), ?_, rfl⟩
              exact ih.mpr ⟨by simpa using hlength, hothers, rfl⟩

theorem toNat_ofNat_length {values : List α} (h : values.length < 2 ^ 64) :
    (UInt64.ofNat values.length).toNat = values.length :=
  UInt64.toNat_ofNat_of_lt' h

theorem exact_list {f : Format α} {writable : α → Prop}
    (hf : Exact f writable) :
    Exact (list f) fun values =>
      values.length < 2 ^ 64 ∧ ∀ a ∈ values, writable a := by
  intro bytes values rest
  change (word64.get bytes >>= fun v => getMany f v.1.toNat v.2) =
    .ok (values, rest) ↔ _
  rw [bind_eq_ok_iff]
  constructor
  · intro hread
    rcases hread with ⟨⟨count, left⟩, hget, hmore⟩
    rcases (exact_word64 bytes count left).mp hget with ⟨_, rfl⟩
    rcases (getMany_eq_ok_iff hf).mp hmore with ⟨hlength, hvalues, rfl⟩
    refine ⟨⟨hlength ▸ count.toNat_lt, hvalues⟩, ?_⟩
    change _ = (word64.put (UInt64.ofNat values.length) ++ _) ++ rest
    rw [hlength, UInt64.ofNat_toNat, List.append_assoc]
  · intro hwritten
    rcases hwritten with ⟨⟨hlength, hvalues⟩, rfl⟩
    refine ⟨(UInt64.ofNat values.length, values.flatMap f.put ++ rest), ?_, ?_⟩
    · exact (exact_word64 _ _ _).mpr ⟨trivial, List.append_assoc _ _ _⟩
    · refine (getMany_eq_ok_iff hf).mpr ⟨?_, hvalues, rfl⟩
      exact (toNat_ofNat_length hlength).symm

theorem exact_optional {f : Format α} {writable : α → Prop}
    (hf : Exact f writable) :
    Exact (optional f) fun value => ∀ a, value = some a → writable a := by
  intro bytes value rest
  change (word8.get bytes >>= _) = .ok (value, rest) ↔ _
  rw [bind_eq_ok_iff]
  constructor
  · intro hread
    rcases hread with ⟨⟨tag, left⟩, hget, hmore⟩
    rcases (exact_word8 bytes tag left).mp hget with ⟨_, rfl⟩
    simp only at hmore
    split at hmore
    · next hzero =>
      cases hmore
      subst hzero
      refine ⟨?_, rfl⟩
      intro a ha
      cases ha
    · split at hmore
      · next hone =>
        rcases bind_eq_ok_iff.mp hmore with ⟨⟨a, left⟩, hget', hvalue⟩
        cases hvalue
        subst hone
        rcases (hf _ a _).mp hget' with ⟨ha, rfl⟩
        refine ⟨?_, (List.append_assoc _ _ _).symm⟩
        intro b hb
        cases hb
        exact ha
      · cases hmore
  · intro hwritten
    rcases hwritten with ⟨hvalue, rfl⟩
    cases value with
    | none =>
        exact ⟨(0, rest), (exact_word8 _ 0 rest).mpr ⟨trivial, rfl⟩, rfl⟩
    | some a =>
        refine ⟨(1, f.put a ++ rest), ?_, ?_⟩
        · exact (exact_word8 _ 1 _).mpr ⟨trivial, List.append_assoc _ _ _⟩
        · exact bind_eq_ok_iff.mpr
            ⟨(a, rest), (hf _ a rest).mpr ⟨hvalue a rfl, rfl⟩, rfl⟩

theorem exact_bytes : Exact bytes fun content => content.length < 2 ^ 64 := by
  intro bytes content rest
  change (word64.get bytes >>= fun v =>
    split .endOfBytes v.1.toNat v.2) = .ok (content, rest) ↔ _
  rw [bind_eq_ok_iff]
  constructor
  · intro hread
    rcases hread with ⟨⟨count, left⟩, hget, hmore⟩
    rcases (exact_word64 bytes count left).mp hget with ⟨_, rfl⟩
    rcases split_eq_ok_iff.mp hmore with ⟨hlength, rfl⟩
    have hlt : content.length < 2 ^ 64 := by
      rw [hlength]
      exact count.toNat_lt
    refine ⟨hlt, ?_⟩
    change _ = (word64.put (UInt64.ofNat content.length) ++ content) ++ rest
    rw [hlength, UInt64.ofNat_toNat, List.append_assoc]
  · intro hwritten
    rcases hwritten with ⟨hlength, rfl⟩
    refine ⟨(UInt64.ofNat content.length, content ++ rest), ?_, ?_⟩
    · exact (exact_word64 _ _ _).mpr ⟨trivial, List.append_assoc _ _ _⟩
    · exact split_eq_ok_iff.mpr ⟨(toNat_ofNat_length hlength).symm, rfl⟩

/-! ## Text -/

theorem decode?_eq_some_iff {content : Bytes} {text : String} :
    Utf8.decode? content = some text ↔ content = Utf8.encode text := by
  unfold Utf8.decode? Utf8.encode String.fromUTF8?
  constructor
  · intro h
    split at h
    · cases h
      rfl
    · cases h
  · intro heq
    subst heq
    have hvalid : ByteArray.IsValidUTF8 ⟨text.toUTF8.data.toList.toArray⟩ :=
      text.isValidUTF8
    rw [dif_pos hvalid]
    rfl

theorem exact_text :
    Exact text fun content => (Utf8.encode content).length < 2 ^ 64 := by
  intro bytes content rest
  change (word64.get bytes >>= fun v => split .endOfText v.1.toNat v.2 >>=
    fun w => _) = .ok (content, rest) ↔ _
  rw [bind_eq_ok_iff]
  constructor
  · intro hread
    rcases hread with ⟨⟨count, left⟩, hget, hmore⟩
    rcases (exact_word64 bytes count left).mp hget with ⟨_, rfl⟩
    rcases bind_eq_ok_iff.mp hmore with ⟨⟨taken, left⟩, hsplit, hvalue⟩
    rcases split_eq_ok_iff.mp hsplit with ⟨hlength, rfl⟩
    simp only at hvalue
    split at hvalue
    · next decoded hdecoded =>
      cases hvalue
      rw [decode?_eq_some_iff] at hdecoded
      subst hdecoded
      have hlt : (Utf8.encode content).length < 2 ^ 64 := by
        rw [hlength]
        exact count.toNat_lt
      refine ⟨hlt, ?_⟩
      change _ = (word64.put (UInt64.ofNat (Utf8.encode content).length) ++
        Utf8.encode content) ++ rest
      rw [hlength, UInt64.ofNat_toNat, List.append_assoc]
    · cases hvalue
  · intro hwritten
    rcases hwritten with ⟨hlength, rfl⟩
    refine ⟨(UInt64.ofNat (Utf8.encode content).length,
      Utf8.encode content ++ rest), ?_, ?_⟩
    · exact (exact_word64 _ _ _).mpr ⟨trivial, List.append_assoc _ _ _⟩
    · refine bind_eq_ok_iff.mpr ⟨(Utf8.encode content, rest), ?_, ?_⟩
      · exact split_eq_ok_iff.mpr ⟨(toNat_ofNat_length hlength).symm, rfl⟩
      · simp only
        rw [decode?_eq_some_iff.mpr rfl]
        rfl

/-! ## Variants -/

theorem exact_enumeration [DecidableEq α] {all : List α}
    (hsmall : all.length < 2 ^ 32) (hnodup : all.Nodup) :
    Exact (enumeration all) fun a => a ∈ all := by
  intro bytes a rest
  change (word32.get bytes >>= fun v => _) = .ok (a, rest) ↔ _
  rw [bind_eq_ok_iff]
  constructor
  · intro hread
    rcases hread with ⟨⟨index, left⟩, hget, hvalue⟩
    rcases (exact_word32 bytes index left).mp hget with ⟨_, rfl⟩
    simp only at hvalue
    split at hvalue
    · next found hfound =>
      cases hvalue
      rcases List.getElem?_eq_some_iff.mp hfound with ⟨hlt, rfl⟩
      refine ⟨List.getElem_mem hlt, ?_⟩
      change _ = word32.put (UInt32.ofNat (all.idxOf _)) ++ rest
      rw [hnodup.idxOf_getElem _ hlt, UInt32.ofNat_toNat]
    · cases hvalue
  · intro hwritten
    rcases hwritten with ⟨ha, rfl⟩
    have hlt := List.idxOf_lt_length_of_mem ha
    refine ⟨(UInt32.ofNat (all.idxOf a), rest), ?_, ?_⟩
    · exact (exact_word32 _ _ _).mpr ⟨trivial, rfl⟩
    · simp only
      rw [UInt32.toNat_ofNat_of_lt' (Nat.lt_trans hlt hsmall),
        List.getElem?_eq_getElem hlt,
        List.getElem_idxOf hlt]
      rfl

theorem getAs_eq_ok_iff {f : Format α} {writable : α → Prop}
    (hf : Exact f writable) {variant : α → β} {put : β → Bytes}
    {index : β → Nat} {writable' : β → Prop} {number : Nat}
    (hput : ∀ a, put (variant a) = f.put a)
    (hwritable : ∀ a, writable' (variant a) ↔ writable a)
    (hindex : ∀ b, index b = number ↔ ∃ a, variant a = b)
    (bytes : Bytes) (b : β) (rest : Bytes) :
    getAs f variant bytes = .ok (b, rest) ↔
      index b = number ∧ writable' b ∧ bytes = put b ++ rest := by
  change (f.get bytes >>= fun v => pure (variant v.1, v.2)) = .ok (b, rest) ↔ _
  rw [bind_eq_ok_iff]
  constructor
  · intro hread
    rcases hread with ⟨⟨a, left⟩, hget, hvalue⟩
    cases hvalue
    rcases (hf bytes a left).mp hget with ⟨ha, hbytes⟩
    rw [hput, hwritable]
    exact ⟨(hindex _).mpr ⟨a, rfl⟩, ha, hbytes⟩
  · intro hwritten
    rcases hwritten with ⟨hnumber, hb, hbytes⟩
    rcases (hindex b).mp hnumber with ⟨a, rfl⟩
    rw [hwritable] at hb
    rw [hput] at hbytes
    exact ⟨(a, rest), (hf bytes a rest).mpr ⟨hb, hbytes⟩, rfl⟩

theorem exact_variants {count : Nat} {index : α → Nat} {put : α → Bytes}
    {get : Nat → Bytes → Except Fault (α × Bytes)} {writable : α → Prop}
    (hsmall : count < 2 ^ 32) (hcount : ∀ a, index a < count)
    (hget : ∀ number < count, ∀ bytes a rest,
      get number bytes = .ok (a, rest) ↔
        index a = number ∧ writable a ∧ bytes = put a ++ rest) :
    Exact (variants count index put get) writable := by
  intro bytes a rest
  change (word32.get bytes >>= fun v => _) = .ok (a, rest) ↔ _
  rw [bind_eq_ok_iff]
  constructor
  · intro hread
    rcases hread with ⟨⟨found, left⟩, hfound, hmore⟩
    rcases (exact_word32 bytes found left).mp hfound with ⟨_, rfl⟩
    simp only at hmore
    split at hmore
    · next hlt =>
      rcases (hget _ hlt _ _ _).mp hmore with ⟨hindex, ha, rfl⟩
      refine ⟨ha, ?_⟩
      change _ = (word32.put (UInt32.ofNat (index a)) ++ put a) ++ rest
      rw [hindex, UInt32.ofNat_toNat, List.append_assoc]
    · cases hmore
  · intro hwritten
    rcases hwritten with ⟨ha, rfl⟩
    have hlt := hcount a
    have hindex : (UInt32.ofNat (index a)).toNat = index a :=
      UInt32.toNat_ofNat_of_lt' (Nat.lt_trans hlt hsmall)
    refine ⟨(UInt32.ofNat (index a), put a ++ rest), ?_, ?_⟩
    · exact (exact_word32 _ _ _).mpr ⟨trivial, List.append_assoc _ _ _⟩
    · simp only
      rw [hindex, if_pos hlt]
      exact (hget _ hlt _ _ _).mpr ⟨rfl, ha, rfl⟩

/-! ## Whole byte strings -/

theorem decode_eq_ok_iff {f : Format α} {writable : α → Prop}
    (hf : Exact f writable) {bytes : Bytes} {a : α} :
    f.decode bytes = .ok a ↔ writable a ∧ bytes = f.put a := by
  change (f.get bytes >>= fun v => _) = .ok a ↔ _
  rw [bind_eq_ok_iff]
  constructor
  · intro hread
    rcases hread with ⟨⟨a, rest⟩, hget, hvalue⟩
    rcases (hf bytes a rest).mp hget with ⟨ha, rfl⟩
    simp only at hvalue
    split at hvalue
    · next hempty =>
      cases hvalue
      rw [List.isEmpty_iff.mp hempty, List.append_nil]
      exact ⟨ha, rfl⟩
    · cases hvalue
  · intro hwritten
    rcases hwritten with ⟨ha, rfl⟩
    exact ⟨(a, []), (hf _ _ _).mpr ⟨ha, (List.append_nil _).symm⟩, rfl⟩

theorem length_put_word32 (word : UInt32) : (word32.put word).length = 4 :=
  length_littleEndian 4 word.toNat

theorem length_le_length_put {f : Format α}
    (hf : ∀ a, 0 < (f.put a).length) (values : List α) :
    values.length ≤ ((list f).put values).length := by
  have hitems : values.length ≤ (values.flatMap f.put).length := by
    induction values with
    | nil =>
        exact Nat.le_refl _
    | cons a others ih =>
        have ha := hf a
        rw [List.length_cons, List.flatMap_cons, List.length_append]
        omega
  change _ ≤ (word64.put _ ++ _).length
  rw [List.length_append]
  omega

end Format
end Wire
end CudaProfile
