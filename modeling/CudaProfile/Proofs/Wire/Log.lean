import CudaProfile.Message
import CudaProfile.Proofs.AddressSet.Obtainable
import CudaProfile.Proofs.Order.OrderedMap
import CudaProfile.Proofs.Wire.Record
/-!
# Logs survive the wire

A log is read back as the messages that were written to it. Buffers of
addresses and sets of addresses have formats that are not strict, since entries
are read in any order and bits after the last address do not count, but these
formats restore what was written as well.
-/

namespace CudaProfile
namespace Wire
namespace Format

/-! ## What messages carry -/

theorem restores_addressBuffer : Restores addressBuffer fun _ => True := by
  apply restores_through ((strict_list (strict_pair strict_word64
    strict_word64)).restores fun _ => True)
  intro b
  exact congrArg AddressBuffer.mk (OrderedMap.ofList_entries b.counts)

theorem restores_addressSet :
    Restores addressSet fun s => s.Legal ∧ s.complemented = false := by
  intro s rest hvalid hlength
  have hrecords : (list bitmap).get (addressSet.put s ++ rest) =
      .ok (s.bitmaps.map Bitmap.toRecord, rest) :=
    (strict_list strict_bitmap).get_put hlength rest
  have hset := AddressSet.ofRecords_map_toRecord hvalid.1 hvalid.2
  change ((list bitmap).get (addressSet.put s ++ rest) >>= _) = _
  rw [hrecords]
  simp only [bind, Except.bind, hset]
  rfl

theorem strict_feature : Strict feature :=
  strict_through (strict_pair strict_bytes strict_word32) _ _
    (fun _ => rfl) fun _ => rfl

theorem strict_featureVector : Strict featureVector :=
  strict_through (strict_pair strict_text (strict_pair strict_threadName
    (strict_list strict_feature))) _ _ (fun _ => rfl) fun _ => rfl

/-! ## Messages -/

/-- A message that has bytes to be read back: a set in it can be obtained, and
is not complemented. -/
def Restorable (m : Message) : Prop :=
  ∀ s, m = .addressSet s → s.Legal ∧ s.complemented = false

theorem index_lt (m : Message) : m.index < 17 := by
  cases m <;> exact of_decide_eq_true rfl

theorem getAs_strict {α : Type} {f : Format α} (hf : Strict f)
    (variant : α → Message) {a : α} {rest : Bytes}
    (h : (f.put a).length < 2 ^ 64) :
    getAs f variant (f.put a ++ rest) = .ok (variant a, rest) :=
  getAs_put (hf.restores fun _ => True) variant trivial h rest

theorem getMessage_putMessage (m : Message) (rest : Bytes)
    (hm : Restorable m) (h : (putMessage m).length < 2 ^ 64) :
    getMessage m.index (putMessage m ++ rest) = .ok (m, rest) := by
  cases m with
  | data blob =>
      exact getAs_strict strict_blob .data h
  | addressBuffer buffer =>
      simp only [Message.index, getMessage, putMessage] at h ⊢
      exact getAs_put (a := buffer) restores_addressBuffer _ trivial h rest
  | addressSet set =>
      simp only [Message.index, getMessage, putMessage] at h ⊢
      exact getAs_put (a := set) restores_addressSet _ (hm set rfl) h rest
  | attachedToThreads attached =>
      exact getAs_strict strict_attached .attachedToThreads h
  | initialLinkedObjects groups =>
      exact getAs_strict (strict_list strict_objectGroup)
        .initialLinkedObjects h
  | linkedObjectGroup group =>
      exact getAs_strict strict_objectGroup .linkedObjectGroup h
  | loadedLinkedObject loaded =>
      exact getAs_strict strict_loaded .loadedLinkedObject h
  | unloadedLinkedObject unloaded =>
      exact getAs_strict strict_unloaded .unloadedLinkedObject h
  | threadsStateChanged changed =>
      exact getAs_strict strict_stateChange .threadsStateChanged h
  | symbolTable symbols =>
      exact getAs_strict strict_symbolTable .symbolTable h
  | threadsFinished finished =>
      exact getAs_strict strict_flag .threadsFinished h
  | triggerAddressBuffer trigger =>
      exact getAs_strict strict_flag .triggerAddressBuffer h
  | triggerData trigger =>
      exact getAs_strict strict_flag .triggerData h
  | emitAddressBuffer emit =>
      exact getAs_strict strict_flag .emitAddressBuffer h
  | emitData thread =>
      exact getAs_strict strict_threadName .emitData h
  | emitFeatures thread =>
      exact getAs_strict strict_threadName .emitFeatures h
  | feature vector =>
      exact getAs_strict strict_featureVector .feature h

theorem restores_message : Restores message Restorable :=
  restores_variants (by decide) index_lt getMessage_putMessage

theorem restores_log :
    Restores (list message) fun log => ∀ m ∈ log, Restorable m := by
  apply restores_list restores_message
  intro m
  change 0 < ((variants 17 Message.index putMessage getMessage).put m).length
  rw [length_put_variants]
  omega

end Format

/-! ## Logs -/

theorem isEncodable_eq_false_iff {m : Message} :
    m.isEncodable = false ↔
      ∃ s, m = .addressSet s ∧ s.complemented = true := by
  cases m <;> simp [Message.isEncodable]

theorem encodeLog_eq_error_iff {log : List Message} :
    (∃ error, encodeLog log = .error error) ↔
      ∃ s, .addressSet s ∈ log ∧ s.complemented = true := by
  unfold encodeLog
  constructor
  · intro hrefused
    split at hrefused
    · rcases hrefused with ⟨error, herror⟩
      cases herror
    · next hsome =>
      rw [List.all_eq_true] at hsome
      simp only [not_forall, Bool.not_eq_true] at hsome
      rcases hsome with ⟨m, hm, hencodable⟩
      rcases isEncodable_eq_false_iff.mp hencodable with ⟨s, rfl, hs⟩
      exact ⟨s, hm, hs⟩
  · intro hset
    rcases hset with ⟨s, hs, hcomplemented⟩
    rw [if_neg]
    · exact ⟨_, rfl⟩
    · intro hall
      have hencodable := List.all_eq_true.mp hall _ hs
      rw [isEncodable_eq_false_iff.mpr ⟨s, rfl, hcomplemented⟩] at hencodable
      cases hencodable

theorem encodeLog_eq_ok {log : List Message} {bytes : Bytes}
    (h : encodeLog log = .ok bytes) :
    bytes = (Format.list Format.message).put log := by
  unfold encodeLog at h
  split at h
  · cases h
    rfl
  · cases h

/-- Encoding a log fails exactly if a set in it is complemented, and otherwise
yields bytes that are decoded as the same log: messages of every variant, with
the bitmaps of sets in their order, the entries of buffers, and the bits of
numbers. -/
theorem decodeLog_encodeLog (log : List Message)
    (h : ∀ s, .addressSet s ∈ log → s.Obtainable) :
    ((∃ error, encodeLog log = .error error) ↔
      ∃ s, .addressSet s ∈ log ∧ s.complemented = true) ∧
    ∀ bytes, encodeLog log = .ok bytes → bytes.length < 2 ^ 64 →
      decodeLog bytes = .ok log := by
  refine ⟨encodeLog_eq_error_iff, ?_⟩
  intro bytes hencoded hlength
  have hbytes := encodeLog_eq_ok hencoded
  subst hbytes
  have hrestorable : ∀ m ∈ log, Format.Restorable m := by
    intro m hm s hs
    subst hs
    refine ⟨(h s hm).legal, Bool.eq_false_iff.mpr ?_⟩
    intro hcomplemented
    rcases encodeLog_eq_error_iff.mpr ⟨s, hm, hcomplemented⟩ with
      ⟨error, herror⟩
    rw [herror] at hencoded
    cases hencoded
  unfold decodeLog decode
  rw [Format.restores_log.decode_put hrestorable hlength]

def lastAddresses : AddressSet :=
  ⟨[⟨⟨Interval.maxWord - 8, Interval.maxWord⟩,
    [Interval.point Interval.maxWord],
    by decide, by decide, by decide, trivial⟩], false⟩

theorem obtainable_lastAddresses : lastAddresses.Obtainable := by
  apply AddressSet.Legal.obtainable
  intro b hb
  rw [List.mem_singleton.mp hb]
  exact ⟨by decide, by decide⟩

theorem decodeLog_encodeLog_lastAddresses :
    ∃ bytes,
      encodeLog [.addressSet lastAddresses, .threadsFinished true] =
        .ok bytes ∧
      decodeLog bytes =
        .ok [.addressSet lastAddresses, .threadsFinished true] := by
  have hsets : ∀ s, .addressSet s ∈
      [Message.addressSet lastAddresses, .threadsFinished true] →
      s.Obtainable := by
    intro s hs
    have heq : s = lastAddresses := by simpa using hs
    rw [heq]
    exact obtainable_lastAddresses
  exact ⟨_, rfl, (decodeLog_encodeLog _ hsets).2 _ rfl (by decide)⟩

end Wire
end CudaProfile
