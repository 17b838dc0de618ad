import CudaProfile.Message
import CudaProfile.Outcome
/-!
# Components

A component keeps a state, takes one message after the other, and answers each
with messages of its own.
-/

namespace CudaProfile

/-- How a component answers a message: its new state, the messages it sends,
the texts it shows to the user and, if the message was refused, why. What was
sent before a refusal stays sent. -/
structure Reply (σ : Type) where
  state : σ
  messages : List Message
  shown : List String
  refusal : Option Error
deriving DecidableEq

namespace Reply

variable {σ τ : Type}

def quiet (state : σ) : Reply σ :=
  ⟨state, [], [], none⟩

def send (state : σ) (messages : List Message) : Reply σ :=
  ⟨state, messages, [], none⟩

def ofOutcome (o : Outcome σ) : Reply σ :=
  ⟨o.state, [], [], o.refusal⟩

def map (f : σ → τ) (r : Reply σ) : Reply τ :=
  ⟨f r.state, r.messages, r.shown, r.refusal⟩

def after (messages : List Message) (shown : List String) (r : Reply σ) :
    Reply σ :=
  ⟨r.state, messages ++ r.messages, shown ++ r.shown, r.refusal⟩

end Reply

/-- The states of a component, which of the messages that come along it
accepts, and how it answers. -/
class Component (σ : Type) where
  name : σ → String
  accepts : σ → Message → Bool
  handle : σ → Message → Reply σ

end CudaProfile
