import CudaProfile.Proofs.Wire.Exact
/-!
# Strict formats

The bytes of a value are in memory, so there are less than `2 ^ 64` of them, and
no length within them needs more than 64 bits. Below that bound a strict format
is exact without any condition on the values, and every way of building a format
from strict ones yields a strict one. Each value of a strict format has one byte
string: neither a part of it nor more than it is read as a value.

Some formats are not strict, because several byte strings are read as the same
value. They still restore what was written.
-/

namespace CudaProfile
namespace Wire
namespace Format

variable {α β : Type}

/-- Every value takes at least one byte, and the format is exact for values
whose bytes are in memory. -/
structure Strict (f : Format α) : Prop where
  exact : ∃ writable, Exact f writable ∧
    ∀ a, (f.put a).length < 2 ^ 64 → writable a
  length_pos : ∀ a, 0 < (f.put a).length

theorem Strict.get_put {f : Format α} (hf : Strict f) {a : α}
    (h : (f.put a).length < 2 ^ 64) (rest : Bytes) :
    f.get (f.put a ++ rest) = .ok (a, rest) := by
  rcases hf.exact with ⟨writable, hexact, hwritable⟩
  exact (hexact _ a rest).mpr ⟨hwritable a h, rfl⟩

/-! ## Numbers and text -/

theorem Exact.strict {f : Format α} {writable : α → Prop}
    (hf : Exact f writable)
    (hwritable : ∀ a, (f.put a).length < 2 ^ 64 → writable a)
    (hpos : ∀ a, 0 < (f.put a).length) : Strict f :=
  ⟨⟨writable, hf, hwritable⟩, hpos⟩

theorem length_put_word64 (word : UInt64) : (word64.put word).length = 8 :=
  length_littleEndian 8 word.toNat

theorem strict_word32 : Strict word32 := by
  apply exact_word32.strict
  · intro word _
    trivial
  · intro word
    rw [length_put_word32]
    omega

theorem strict_word64 : Strict word64 := by
  apply exact_word64.strict
  · intro word _
    trivial
  · intro word
    rw [length_put_word64]
    omega

theorem strict_flag : Strict flag := by
  apply exact_flag.strict
  · intro b _
    trivial
  · intro b
    exact Nat.one_pos

theorem length_put_bytes (content : Bytes) :
    (bytes.put content).length = 8 + content.length := by
  change (word64.put _ ++ content).length = _
  rw [List.length_append, length_put_word64]

theorem strict_bytes : Strict bytes := by
  apply exact_bytes.strict
  · intro content h
    rw [length_put_bytes] at h
    omega
  · intro content
    rw [length_put_bytes]
    omega

theorem length_put_text (content : String) :
    (text.put content).length = 8 + (Utf8.encode content).length :=
  length_put_bytes (Utf8.encode content)

theorem strict_text : Strict text := by
  apply exact_text.strict
  · intro content h
    rw [length_put_text] at h
    omega
  · intro content
    rw [length_put_text]
    omega

theorem strict_enumeration [DecidableEq α] {all : List α}
    (hsmall : all.length < 2 ^ 32) (hnodup : all.Nodup) (hall : ∀ a, a ∈ all) :
    Strict (enumeration all) := by
  apply (exact_enumeration hsmall hnodup).strict
  · intro a _
    exact hall a
  · intro a
    change 0 < (word32.put _).length
    rw [length_put_word32]
    omega

/-! ## Compound values -/

theorem strict_through {f : Format α} (hf : Strict f) (there : α → β)
    (back : β → α) (hthere : ∀ b, there (back b) = b)
    (hback : ∀ a, back (there a) = a) : Strict (f.through there back) := by
  rcases hf.exact with ⟨writable, hexact, hwritable⟩
  apply (exact_through hexact there back hthere fun a _ => hback a).strict
  · intro b h
    exact hwritable (back b) h
  · intro b
    exact hf.length_pos (back b)

theorem strict_int32 : Strict int32 :=
  strict_through strict_word32 _ _ (fun _ => rfl) fun _ => rfl

theorem strict_int64 : Strict int64 :=
  strict_through strict_word64 _ _ (fun _ => rfl) fun _ => rfl

theorem length_put_pair (f : Format α) (g : Format β) (v : α × β) :
    ((f.pair g).put v).length = (f.put v.1).length + (g.put v.2).length :=
  List.length_append

theorem strict_pair {f : Format α} {g : Format β} (hf : Strict f)
    (hg : Strict g) : Strict (f.pair g) := by
  rcases hf.exact with ⟨writable, hexact, hwritable⟩
  rcases hg.exact with ⟨writable', hexact', hwritable'⟩
  apply (exact_pair hexact hexact').strict
  · intro v h
    rw [length_put_pair] at h
    exact ⟨hwritable v.1 (by omega), hwritable' v.2 (by omega)⟩
  · intro v
    have hfirst := hf.length_pos v.1
    rw [length_put_pair]
    omega

theorem strict_optional {f : Format α} (hf : Strict f) :
    Strict (optional f) := by
  rcases hf.exact with ⟨writable, hexact, hwritable⟩
  apply (exact_optional hexact).strict
  · intro value h a ha
    subst ha
    change (word8.put 1 ++ f.put a).length < _ at h
    rw [List.length_append] at h
    exact hwritable a (by omega)
  · intro value
    cases value with
    | none =>
        exact Nat.one_pos
    | some a =>
        change 0 < (word8.put 1 ++ f.put a).length
        rw [List.length_append]
        exact Nat.add_pos_right _ (hf.length_pos a)

theorem length_put_list_pos (f : Format α) (values : List α) :
    0 < ((list f).put values).length := by
  change 0 < (word64.put _ ++ _).length
  rw [List.length_append, length_put_word64]
  omega

theorem length_put_le_of_mem (f : Format α) {values : List α} {a : α}
    (ha : a ∈ values) : (f.put a).length ≤ ((list f).put values).length := by
  have hitem := (List.sublist_flatten_of_mem
    (List.mem_map_of_mem (f := f.put) ha)).length_le
  rw [← List.flatMap_def] at hitem
  change _ ≤ (word64.put _ ++ values.flatMap f.put).length
  rw [List.length_append]
  omega

theorem strict_list {f : Format α} (hf : Strict f) : Strict (list f) := by
  rcases hf.exact with ⟨writable, hexact, hwritable⟩
  apply (exact_list hexact).strict
  · intro values h
    have hlength := length_le_length_put hf.length_pos values
    refine ⟨by omega, ?_⟩
    intro a ha
    have hitem := length_put_le_of_mem f ha
    exact hwritable a (by omega)
  · exact length_put_list_pos f

/-! ## Restoring -/

def Restores (f : Format α) (valid : α → Prop) : Prop :=
  ∀ a rest, valid a → (f.put a).length < 2 ^ 64 →
    f.get (f.put a ++ rest) = .ok (a, rest)

theorem Strict.restores {f : Format α} (hf : Strict f) (valid : α → Prop) :
    Restores f valid := by
  intro a rest _ hlength
  exact hf.get_put hlength rest

theorem restores_through {f : Format α} {valid : α → Prop}
    (hf : Restores f valid) (there : α → β) (back : β → α)
    (hthere : ∀ b, there (back b) = b) :
    Restores (f.through there back) fun b => valid (back b) := by
  intro b rest hvalid hlength
  change (f.get (f.put (back b) ++ rest) >>= fun v => pure (there v.1, v.2)) = _
  rw [hf (back b) rest hvalid hlength]
  change Except.ok (there (back b), rest) = _
  rw [hthere]

theorem getMany_put {f : Format α} {valid : α → Prop} (hf : Restores f valid)
    {values : List α} (hvalid : ∀ a ∈ values, valid a)
    (hlength : ∀ a ∈ values, (f.put a).length < 2 ^ 64) (rest : Bytes) :
    getMany f values.length (values.flatMap f.put ++ rest) =
      .ok (values, rest) := by
  induction values with
  | nil =>
      rfl
  | cons a others ih =>
      rcases List.forall_mem_cons.mp hvalid with ⟨ha, hothers⟩
      rcases List.forall_mem_cons.mp hlength with ⟨hshort, hmore⟩
      rw [List.flatMap_cons, List.append_assoc]
      change (f.get (f.put a ++ (others.flatMap f.put ++ rest)) >>= fun v =>
        getMany f others.length v.2 >>= fun w => pure (v.1 :: w.1, w.2)) = _
      rw [hf a _ ha hshort]
      change (getMany f others.length (others.flatMap f.put ++ rest) >>=
        fun w => pure (a :: w.1, w.2)) = _
      rw [ih hothers hmore]
      rfl

theorem restores_list {f : Format α} {valid : α → Prop}
    (hf : Restores f valid) (hpos : ∀ a, 0 < (f.put a).length) :
    Restores (list f) fun values => ∀ a ∈ values, valid a := by
  intro values rest hvalid hlength
  have hcount := length_le_length_put hpos values
  change (word64.get ((word64.put (UInt64.ofNat values.length) ++
    values.flatMap f.put) ++ rest) >>= fun v => getMany f v.1.toNat v.2) = _
  rw [List.append_assoc, strict_word64.get_put (by
    rw [length_put_word64]
    omega)]
  change getMany f (UInt64.ofNat values.length).toNat _ = _
  rw [toNat_ofNat_length (by omega)]
  apply getMany_put hf hvalid
  intro a ha
  have hitem := length_put_le_of_mem f ha
  omega

theorem getAs_put {f : Format α} {valid : α → Prop} (hf : Restores f valid)
    (variant : α → β) {a : α} (hvalid : valid a)
    (hlength : (f.put a).length < 2 ^ 64) (rest : Bytes) :
    getAs f variant (f.put a ++ rest) = .ok (variant a, rest) := by
  change (f.get (f.put a ++ rest) >>= fun v => pure (variant v.1, v.2)) = _
  rw [hf a rest hvalid hlength]
  rfl

theorem length_put_variants {count : Nat} {index : α → Nat} {put : α → Bytes}
    {get : Nat → Bytes → Except Fault (α × Bytes)} (a : α) :
    ((variants count index put get).put a).length = 4 + (put a).length := by
  change (word32.put _ ++ put a).length = _
  rw [List.length_append, length_put_word32]

theorem restores_variants {count : Nat} {index : α → Nat} {put : α → Bytes}
    {get : Nat → Bytes → Except Fault (α × Bytes)} {valid : α → Prop}
    (hsmall : count < 2 ^ 32) (hcount : ∀ a, index a < count)
    (hget : ∀ a rest, valid a → (put a).length < 2 ^ 64 →
      get (index a) (put a ++ rest) = .ok (a, rest)) :
    Restores (variants count index put get) valid := by
  intro a rest hvalid hlength
  rw [length_put_variants] at hlength
  have hindex : (UInt32.ofNat (index a)).toNat = index a :=
    UInt32.toNat_ofNat_of_lt' (Nat.lt_trans (hcount a) hsmall)
  change (word32.get ((word32.put (UInt32.ofNat (index a)) ++ put a) ++ rest) >>=
    fun v => if v.1.toNat < count then get v.1.toNat v.2
      else throw (.badVariant v.1 count)) = _
  rw [List.append_assoc, strict_word32.get_put (by
    rw [length_put_word32]
    omega)]
  change (if (UInt32.ofNat (index a)).toNat < count then
    get (UInt32.ofNat (index a)).toNat (put a ++ rest) else _) = _
  rw [hindex, if_pos (hcount a)]
  exact hget a rest hvalid (by omega)

/-! ## Whole byte strings -/

theorem decode_of_get {f : Format α} {bytes rest : Bytes} {a : α}
    (h : f.get bytes = .ok (a, rest)) :
    f.decode bytes =
      if rest.isEmpty then .ok a else .error .remainingBytes := by
  unfold decode
  rw [h]
  rfl

theorem Restores.decode_put {f : Format α} {valid : α → Prop}
    (hf : Restores f valid) {a : α} (hvalid : valid a)
    (h : (f.put a).length < 2 ^ 64) : f.decode (f.put a) = .ok a := by
  have hget := hf a [] hvalid h
  rw [List.append_nil] at hget
  rw [decode_of_get hget]
  rfl

theorem Strict.put_of_decode {f : Format α} (hf : Strict f) {bytes : Bytes}
    {a : α} (h : f.decode bytes = .ok a) : f.put a = bytes := by
  rcases hf.exact with ⟨writable, hexact, _⟩
  exact ((decode_eq_ok_iff hexact).mp h).2.symm

theorem Strict.decode_append {f : Format α} (hf : Strict f) {a : α}
    (h : (f.put a).length < 2 ^ 64) {more : Bytes} (hmore : more ≠ []) :
    f.decode (f.put a ++ more) = .error .remainingBytes := by
  rw [decode_of_get (hf.get_put h more), if_neg]
  rw [List.isEmpty_iff]
  exact hmore

/-- No part of what is written of a value is read as a value: what it would be
read as is written in that part, and the whole would be read as the same. -/
theorem Strict.decode_of_prefix {f : Format α} (hf : Strict f) {a : α}
    (h : (f.put a).length < 2 ^ 64) {part : Bytes} (hpart : part <+: f.put a)
    (hne : part ≠ f.put a) : ∃ fault, f.decode part = .error fault := by
  cases hdecode : f.decode part with
  | error fault =>
      exact ⟨fault, rfl⟩
  | ok b =>
      exfalso
      rcases hpart with ⟨more, hmore⟩
      have hput := hf.put_of_decode hdecode
      rw [← hput] at hmore
      have hshort : (f.put b).length < 2 ^ 64 := by
        rw [← hmore, List.length_append] at h
        omega
      have hwhole := hf.get_put h []
      rw [List.append_nil, ← hmore, hf.get_put hshort more] at hwhole
      cases hwhole
      rw [List.append_nil] at hmore
      exact hne (hput.symm.trans hmore)

end Format
end Wire
end CudaProfile
