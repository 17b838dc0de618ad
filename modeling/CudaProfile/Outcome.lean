import CudaProfile.Error
/-!
# Outcomes

An operation on a state may be refused halfway. What it did before stays done.
-/

namespace CudaProfile

/-- The state that an operation leaves and, if it was refused, why. -/
structure Outcome (σ : Type) where
  state : σ
  refusal : Option Error
deriving DecidableEq

namespace Outcome

variable {σ τ α : Type}

def done (state : σ) : Outcome σ :=
  ⟨state, none⟩

def refused (state : σ) (error : Error) : Outcome σ :=
  ⟨state, some error⟩

def orElse (fallback : σ) : Except Error σ → Outcome σ
  | .ok state => done state
  | .error error => refused fallback error

def result (o : Outcome σ) : Except Error σ :=
  match o.refusal with
  | none => .ok o.state
  | some error => .error error

def map (f : σ → τ) (o : Outcome σ) : Outcome τ :=
  ⟨f o.state, o.refusal⟩

def andThen (o : Outcome σ) (next : σ → Outcome σ) : Outcome σ :=
  match o.refusal with
  | none => next o.state
  | some _ => o

def forEach (step : σ → α → Outcome σ) : σ → List α → Outcome σ
  | state, [] => done state
  | state, item :: rest =>
      (step state item).andThen fun next => forEach step next rest

end Outcome
end CudaProfile
