import CudaProfile.Proofs.Wire.Strict
import CudaProfile.Wire.Record
/-!
# Records are written strictly

The formats of records are pairs, lists and enumerations of strict formats,
taken apart into their fields and put together again.
-/

namespace CudaProfile
namespace Wire
namespace Format

/-! ## Threads -/

theorem strict_thread : Strict thread :=
  strict_through (strict_pair strict_int32 (strict_pair strict_text
    (strict_pair strict_int64 (strict_pair strict_flag
      (strict_pair strict_int64 strict_int32))))) _ _
    (fun _ => rfl) fun _ => rfl

theorem strict_threadName : Strict threadName :=
  strict_through (strict_pair strict_text (strict_pair strict_word64
    (strict_pair (strict_optional strict_word64)
      (strict_optional strict_word32)))) _ _
    (fun _ => rfl) fun _ => rfl

theorem strict_threadState : Strict threadState :=
  strict_enumeration (by decide) (by decide) fun state => by
    cases state <;> decide

theorem strict_attached : Strict attached :=
  strict_through (strict_list strict_thread) _ _ (fun _ => rfl) fun _ => rfl

theorem strict_stateChange : Strict stateChange :=
  strict_through (strict_pair (strict_list strict_thread) strict_threadState)
    _ _ (fun _ => rfl) fun _ => rfl

/-! ## Linked objects -/

theorem strict_halfOpen : Strict halfOpen :=
  strict_through (strict_pair strict_word64 strict_word64) _ _
    (fun _ => rfl) fun _ => rfl

theorem strict_file : Strict file :=
  strict_through (strict_pair strict_text strict_word64) _ _
    (fun _ => rfl) fun _ => rfl

theorem strict_mappedObject : Strict mappedObject :=
  strict_through (strict_pair strict_file (strict_pair strict_halfOpen
    (strict_pair strict_halfOpen strict_flag))) _ _
    (fun _ => rfl) fun _ => rfl

theorem strict_objectGroup : Strict objectGroup :=
  strict_through (strict_pair strict_thread (strict_list strict_mappedObject))
    _ _ (fun _ => rfl) fun _ => rfl

theorem strict_loaded : Strict loaded :=
  strict_through (strict_pair (strict_list strict_thread)
    (strict_pair strict_word64 (strict_pair strict_halfOpen
      (strict_pair strict_file strict_flag)))) _ _
    (fun _ => rfl) fun _ => rfl

theorem strict_unloaded : Strict unloaded :=
  strict_through (strict_pair (strict_list strict_thread)
    (strict_pair strict_word64 strict_file)) _ _
    (fun _ => rfl) fun _ => rfl

/-! ## Symbols -/

theorem strict_bitmap : Strict bitmap :=
  strict_through (strict_pair strict_halfOpen strict_bytes) _ _
    (fun _ => rfl) fun _ => rfl

theorem strict_function : Strict function :=
  strict_through (strict_pair strict_text (strict_list strict_bitmap)) _ _
    (fun _ => rfl) fun _ => rfl

theorem strict_loop : Strict loop :=
  strict_through (strict_pair strict_word64 (strict_list strict_bitmap)) _ _
    (fun _ => rfl) fun _ => rfl

theorem strict_statement : Strict statement :=
  strict_through (strict_pair strict_file (strict_pair strict_word32
    (strict_pair strict_word32 (strict_list strict_bitmap)))) _ _
    (fun _ => rfl) fun _ => rfl

theorem strict_symbolTable : Strict symbolTable :=
  strict_through (strict_pair strict_file (strict_pair
    (strict_list strict_function) (strict_pair (strict_list strict_loop)
      (strict_list strict_statement)))) _ _
    (fun _ => rfl) fun _ => rfl

/-! ## Blobs -/

theorem strict_blobHeader : Strict blobHeader :=
  strict_through (strict_pair strict_int32 (strict_pair strict_int32
    (strict_pair strict_text (strict_pair strict_thread strict_halfOpen)))) _ _
    (fun _ => rfl) fun _ => rfl

theorem strict_blob : Strict blob :=
  strict_through (strict_pair strict_blobHeader strict_bytes) _ _
    (fun _ => rfl) fun _ => rfl

end Format
end Wire
end CudaProfile
