import CudaProfile.Component.Stage
import CudaProfile.Text.Json
/-!
# Reports

What is told of the messages that a pipeline sent, as text and as JSON.
-/

namespace CudaProfile
namespace CommandLine

/-! ## Lines -/

def line (text : String) : String :=
  text ++ "\n"

def success (text : String) : String :=
  line ("✓ " ++ text)

def warning (text : String) : String :=
  line ("⚠ " ++ text)

def info (text : String) : String :=
  line ("ℹ " ++ text)

def heading (title : String) : String :=
  line ("\n=== " ++ title ++ " ===")

def row (label value : String) : String :=
  line ("  " ++ Text.padLeft 24 ' ' label ++ " " ++ Text.padLeft 12 ' ' value)

/-! ## What came out of the aggregation -/

structure Summary where
  messagesIn : Nat
  messagesOut : Nat
  byKind : OrderedMap String Nat
  threads : OrderedMap ThreadName Unit
  observedAddresses : UInt64
  addressSamples : UInt64
  finished : Option Bool
deriving DecidableEq

namespace Summary

def add (s : Summary) (m : Message) : Summary :=
  let s :=
    { s with
      messagesOut := s.messagesOut + 1
      byKind := s.byKind.alter m.kind fun count => count.getD 0 + 1 }
  match m with
  | .data blob => { s with threads := s.threads.insert blob.thread () }
  | .addressSet set => { s with observedAddresses := set.count }
  | .addressBuffer buffer => { s with addressSamples := buffer.total }
  | .threadsFinished finished => { s with finished := some finished }
  | _ => s

def ofMessages (messagesIn : Nat) (messages : List Message) : Summary :=
  messages.foldl add ⟨messagesIn, 0, ∅, ∅, 0, 0, none⟩

def threadTexts (s : Summary) : List String :=
  s.threads.keys.map ThreadName.text

def toJson (s : Summary) : Json :=
  .object
    [("messages_in", .nat s.messagesIn),
      ("messages_out", .nat s.messagesOut),
      ("by_kind", .object (s.byKind.entries.map fun e => (e.1, .nat e.2))),
      ("threads", .array (s.threadTexts.map Json.string)),
      ("observed_addresses", .nat s.observedAddresses.toNat),
      ("address_samples", .nat s.addressSamples.toNat),
      ("finished", match s.finished with
        | some finished => .bool finished
        | none => .null)]

def verdict (s : Summary) : String :=
  match s.finished with
  | some true => success "All threads finished"
  | some false => warning "Threads finished abnormally"
  | none => warning "Not every thread terminated; nothing was emitted"

def text (s : Summary) : String :=
  let threads := s.threadTexts
  String.join
    ([info ("Replayed " ++ toString s.messagesIn ++ " messages, " ++
          toString s.messagesOut ++ " emitted"),
        heading "Emitted messages"] ++
      s.byKind.entries.map (fun e => row e.1 (toString e.2)) ++
      (if threads.isEmpty then []
        else heading "Threads with data" ::
          threads.map fun thread => line ("  " ++ thread)) ++
      [line ("\n  " ++ toString s.observedAddresses ++
          " observed addresses, " ++ toString s.addressSamples ++
          " address samples"),
        s.verdict])

end Summary

/-! ## Feature vectors -/

def optionalJson {α : Type} (toJson : α → Json) : Option α → Json
  | some a => toJson a
  | none => .null

def threadJson (t : ThreadName) : Json :=
  .object
    [("host", .string t.host), ("pid", .nat t.pid.toNat),
      ("tid", optionalJson (fun tid => .nat tid.toNat) t.tid),
      ("mpi_rank", optionalJson (fun rank => .nat rank.toNat) t.rank)]

/-- A feature as a JSON document; infinite values and what is no number have
none. -/
def featureJson (f : Feature) : Json :=
  .object
    [("name", .array (f.name.map fun byte => .nat byte.toNat)),
      ("value", optionalJson Json.number f.value.shortestText?)]

def vectorJson (v : FeatureVector) : Json :=
  .object
    [("name", .string v.name), ("thread", threadJson v.thread),
      ("features", .array (v.features.map featureJson))]

def vectorText (v : FeatureVector) : String :=
  heading (v.name ++ " " ++ v.thread.text) ++
    String.join (v.features.map fun f =>
      row (f.nameText?.getD "?") f.value.oneDecimalText)

def vectors (messages : List Message) : List FeatureVector :=
  messages.filterMap fun
    | .feature vector => some vector
    | _ => none

end CommandLine
end CudaProfile
