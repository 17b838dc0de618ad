import CudaProfile.Message
import CudaProfile.Proofs.Cuda.Format
import CudaProfile.Proofs.Wire.Record
/-!
# Payloads are decoded strictly

CUDA data whose bytes are in memory is writable, since no length in it exceeds
the number of its bytes. So the format of payloads is strict, as those of the
records around them are: of all byte strings only the one that encodes a value
is decoded as it.
-/

namespace CudaProfile
namespace Cuda
namespace Format

open Wire Wire.Format

/-! ## Lengths within records -/

theorem length_put_through {α β : Type} (f : Wire.Format α) (there : α → β)
    (back : β → α) (b : β) :
    ((f.through there back).put b).length = (f.put (back b)).length :=
  rfl

theorem shortList_words {values : List UInt64}
    (h : ((list word64).put values).length < 2 ^ 64) : ShortList values := by
  have hlength := length_le_length_put strict_word64.length_pos values
  exact Nat.lt_of_le_of_lt hlength h

theorem strict_counterDescription : Strict counterDescription := by
  apply exact_counterDescription.strict
  · intro c h
    simp only [counterDescription, length_put_through, length_put_pair,
      length_put_text] at h
    unfold ShortText
    omega
  · intro c
    simp only [counterDescription, length_put_through, length_put_pair,
      length_put_text]
    omega

theorem writable_of_length {r : Record}
    (h : (putRecord r).length < 2 ^ 64) : Writable r := by
  cases r with
  | deviceInfo i =>
      simp only [putRecord, deviceInfo, length_put_through, length_put_pair,
        length_put_text] at h
      change (Utf8.encode i.name).length < 2 ^ 64
      omega
  | samplingConfig c =>
      simp only [putRecord, samplingConfig, length_put_through,
        length_put_pair] at h
      have hevents := length_le_length_put
        strict_counterDescription.length_pos c.events
      refine ⟨Nat.lt_of_le_of_lt hevents (by omega), ?_⟩
      intro event hevent
      have hitem := length_put_le_of_mem counterDescription hevent
      simp only [counterDescription, length_put_through, length_put_pair,
        length_put_text] at h hitem
      change (Utf8.encode event.name).length < 2 ^ 64
      omega
  | completedExec e =>
      simp only [putRecord, completedExec, length_put_through, length_put_pair,
        length_put_text] at h
      change (Utf8.encode e.function).length < 2 ^ 64
      omega
  | overflowSamples s =>
      simp only [putRecord, overflowSamples, length_put_through,
        length_put_pair] at h
      exact ⟨shortList_words (by omega), shortList_words (by omega)⟩
  | periodicSamples s =>
      simp only [putRecord, periodicSamples, length_put_through,
        length_put_pair] at h
      exact shortList_words (by omega)
  | loadedModule m =>
      simp only [putRecord, loadedModule, length_put_through, length_put_pair,
        length_put_text] at h
      change (Utf8.encode m.path).length < 2 ^ 64
      omega
  | resolvedFunction f =>
      simp only [putRecord, resolvedFunction, length_put_through,
        length_put_pair, length_put_text] at h
      change (Utf8.encode f.function).length < 2 ^ 64
      omega
  | _ =>
      trivial

theorem strict_record : Strict record := by
  apply exact_record.strict
  · intro r h
    change (word32.put _ ++ putRecord r).length < _ at h
    rw [List.length_append] at h
    exact writable_of_length (by omega)
  · exact length_put_record

theorem strict_data : Strict data :=
  strict_through (strict_pair (strict_list strict_record)
    (strict_list strict_word64)) _ _ (fun _ => rfl) fun _ => rfl

end Format
end Cuda

namespace Wire

/-! ## Whole byte strings -/

def Refused {α : Type} (f : Format α) (bytes : Bytes) : Prop :=
  ∃ error, decode f bytes = .error error ∧ error.kind = .malformed

/-- Every value has exactly one byte string that is decoded as it. Values are
those whose byte strings are in memory. -/
structure DecodesStrictly {α : Type} (f : Format α) : Prop where
  /-- What is decoded as a value is its encoding. -/
  canonical : ∀ bytes a, decode f bytes = .ok a → encode f a = bytes
  /-- The encoding of a value is decoded as it. -/
  restored : ∀ a, (encode f a).length < 2 ^ 64 →
    decode f (encode f a) = .ok a
  /-- An encoding that breaks off early is refused. -/
  truncated : ∀ a, (encode f a).length < 2 ^ 64 → ∀ part,
    part <+: encode f a → part ≠ encode f a → Refused f part
  /-- An encoding with further bytes behind it is refused. -/
  extended : ∀ a, (encode f a).length < 2 ^ 64 → ∀ more, more ≠ [] →
    Refused f (encode f a ++ more)

theorem ofBlob_eq_decode (blob : Blob) :
    Cuda.Data.ofBlob blob = decode Cuda.Format.data blob.payload := by
  unfold Cuda.Data.ofBlob decode
  cases Cuda.Format.data.decode blob.payload with
  | ok data =>
      rfl
  | error fault =>
      rfl

theorem decode_eq_ok_iff {α : Type} {f : Format α} {bytes : Bytes} {a : α} :
    decode f bytes = .ok a ↔ f.decode bytes = .ok a := by
  unfold decode
  cases f.decode bytes with
  | ok value =>
      rw [Except.ok.injEq, Except.ok.injEq]
  | error fault =>
      exact iff_of_false (by intro h; cases h) (by intro h; cases h)

theorem refused_of_decode {α : Type} {f : Format α} {bytes : Bytes}
    {fault : Fault} (h : f.decode bytes = .error fault) : Refused f bytes := by
  refine ⟨.undecodable fault, ?_, rfl⟩
  unfold decode
  rw [h]

theorem decodesStrictly {α : Type} {f : Format α} (hf : Format.Strict f) :
    DecodesStrictly f := by
  constructor
  · intro bytes a h
    exact hf.put_of_decode (decode_eq_ok_iff.mp h)
  · intro a h
    exact decode_eq_ok_iff.mpr
      ((hf.restores fun _ => True).decode_put trivial h)
  · intro a h part hpart hne
    rcases hf.decode_of_prefix h hpart hne with ⟨fault, hfault⟩
    exact refused_of_decode hfault
  · intro a h more hmore
    exact refused_of_decode (hf.decode_append h hmore)

/-- The payloads of blobs are decoded as CUDA data, and both they and the plain
records are decoded strictly, whatever the bytes are: lengths beyond their end,
wrong tags and numbers of variants, text that is none, or an end at any
place. -/
theorem payloads_and_records_decode_strictly :
    (∀ blob, Cuda.Data.ofBlob blob = decode Cuda.Format.data blob.payload) ∧
      DecodesStrictly Cuda.Format.data ∧
      DecodesStrictly Format.blobHeader ∧
      DecodesStrictly Format.blob ∧
      DecodesStrictly Format.thread ∧
      DecodesStrictly Format.bitmap ∧
      DecodesStrictly Format.symbolTable :=
  ⟨ofBlob_eq_decode,
    decodesStrictly Cuda.Format.strict_data,
    decodesStrictly Format.strict_blobHeader,
    decodesStrictly Format.strict_blob,
    decodesStrictly Format.strict_thread,
    decodesStrictly Format.strict_bitmap,
    decodesStrictly Format.strict_symbolTable⟩

end Wire
end CudaProfile
