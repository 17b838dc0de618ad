import CudaProfile.Component.Basic
/-!
# Pipelines

Components in a line. What one sends goes to the next, and messages that a
component does not accept pass it unchanged.
-/

namespace CudaProfile
namespace Pipeline

variable {σ : Type} [Component σ]

/-- Hand messages to a stage, one after the other, up to the first that it
refuses. -/
def deliver (stage : σ) : List Message → Reply σ
  | [] => .quiet stage
  | message :: rest =>
      if Component.accepts stage message then
        let reply := Component.handle stage message
        match reply.refusal with
        | none => (deliver reply.state rest).after reply.messages reply.shown
        | some _ => reply
      else (deliver stage rest).after [message] []

/-- Run messages through all stages. After a refusal nothing is sent, but the
stages keep what they learned. -/
def run : List σ → List Message → Reply (List σ)
  | [], messages => .send [] messages
  | stage :: stages, messages =>
      let reply := deliver stage messages
      match reply.refusal with
      | none =>
          ((run stages reply.messages).map fun later =>
            reply.state :: later).after [] reply.shown
      | some error => ⟨reply.state :: stages, [], reply.shown, some error⟩

def send (stages : List σ) (message : Message) : Reply (List σ) :=
  run stages [message]

def sendAll (stages : List σ) : List Message → Reply (List σ)
  | [] => .quiet stages
  | message :: rest =>
      let reply := send stages message
      match reply.refusal with
      | none => (sendAll reply.state rest).after reply.messages reply.shown
      | some _ => reply

def names (stages : List σ) : List String :=
  stages.map Component.name

end Pipeline
end CudaProfile
