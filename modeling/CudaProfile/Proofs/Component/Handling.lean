import CudaProfile.Component.Basic
/-!
# Messages handled one after the other

A component that refuses a message keeps the state in which that left it, and
goes on with the next one.
-/

namespace CudaProfile
namespace Component

variable {σ : Type} [Component σ]

/-- The state after messages were handled; those that were refused are among
them. -/
def after (s : σ) (messages : List Message) : σ :=
  messages.foldl (fun s message => (handle s message).state) s

def sent : σ → List Message → List Message
  | _, [] => []
  | s, message :: rest =>
      (handle s message).messages ++ sent (handle s message).state rest

theorem sent_cons (s : σ) (message : Message) (rest : List Message) :
    sent s (message :: rest) =
      (handle s message).messages ++ sent (handle s message).state rest :=
  rfl

/-! ## One message and the rest -/

section Cons

variable {s s' : σ} {message : Message}

theorem sent_of_send {messages : List Message}
    (h : handle s message = .send s' messages) (rest : List Message) :
    sent s (message :: rest) = messages ++ sent s' rest := by
  rw [sent_cons, h]
  rfl

theorem after_of_send {messages : List Message}
    (h : handle s message = .send s' messages) (rest : List Message) :
    after s (message :: rest) = after s' rest := by
  change after (handle s message).state rest = _
  rw [h]
  rfl

theorem sent_of_quiet (h : handle s message = .quiet s')
    (rest : List Message) : sent s (message :: rest) = sent s' rest :=
  sent_of_send h rest

theorem after_of_quiet (h : handle s message = .quiet s')
    (rest : List Message) : after s (message :: rest) = after s' rest :=
  after_of_send h rest

end Cons

/-! ## Messages in parts -/

theorem after_append (s : σ) (before later : List Message) :
    after s (before ++ later) = after (after s before) later :=
  List.foldl_append

theorem sent_append (s : σ) (before later : List Message) :
    sent s (before ++ later) = sent s before ++ sent (after s before) later := by
  induction before generalizing s with
  | nil =>
      rfl
  | cons message rest ih =>
      rw [List.cons_append, sent_cons, ih, ← List.append_assoc]
      rfl

end Component
end CudaProfile
