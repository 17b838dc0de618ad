import CudaProfile.Component.Pipeline
/-!
# Laws of pipelines

What is delivered to a stage can be delivered in parts, messages that a stage
does not accept pass it, and nothing comes of nothing.
-/

namespace CudaProfile
namespace Pipeline

variable {σ : Type} [Component σ]

/-- The stages after messages were sent, each on its own; those that were
refused are among them. -/
def after (stages : List σ) (messages : List Message) : List σ :=
  messages.foldl (fun stages message => (send stages message).state) stages

theorem after_append (stages : List σ) (before later : List Message) :
    after stages (before ++ later) = after (after stages before) later :=
  List.foldl_append

theorem deliver_cons_accepted {stage : σ} {message : Message}
    (haccepts : Component.accepts stage message = true)
    (hdone : (Component.handle stage message).refusal = none)
    (rest : List Message) :
    deliver stage (message :: rest) =
      (deliver (Component.handle stage message).state rest).after
        (Component.handle stage message).messages
        (Component.handle stage message).shown := by
  rw [deliver, if_pos haccepts]
  simp only [hdone]

theorem deliver_cons_passed {stage : σ} {message : Message}
    (haccepts : Component.accepts stage message = false)
    (rest : List Message) :
    deliver stage (message :: rest) =
      (deliver stage rest).after [message] [] := by
  rw [deliver, if_neg (by simp [haccepts])]

theorem deliver_cons_refused {stage : σ} {message : Message}
    (haccepts : Component.accepts stage message = true)
    {error : Error}
    (hrefused : (Component.handle stage message).refusal = some error)
    (rest : List Message) :
    deliver stage (message :: rest) = Component.handle stage message := by
  rw [deliver, if_pos haccepts]
  simp only [hrefused]

/-- A stage takes messages in parts, and no later part once it has refused
something. -/
theorem deliver_append_eq (stage : σ) (before later : List Message) :
    deliver stage (before ++ later) =
      match (deliver stage before).refusal with
      | none => (deliver (deliver stage before).state later).after
          (deliver stage before).messages (deliver stage before).shown
      | some _ => deliver stage before := by
  induction before generalizing stage with
  | nil =>
      rfl
  | cons message rest ih =>
      rw [List.cons_append]
      cases haccepts : Component.accepts stage message with
      | false =>
          rw [deliver_cons_passed haccepts, deliver_cons_passed haccepts,
            ih stage]
          cases hrest : (deliver stage rest).refusal with
          | none =>
              simp [Reply.after, hrest]
          | some error =>
              simp [Reply.after, hrest]
      | true =>
          cases hdone : (Component.handle stage message).refusal with
          | none =>
              rw [deliver_cons_accepted haccepts hdone,
                deliver_cons_accepted haccepts hdone, ih]
              cases hrest : (deliver (Component.handle stage message).state
                  rest).refusal with
              | none =>
                  simp [Reply.after, hrest]
              | some error =>
                  simp [Reply.after, hrest]
          | some error =>
              rw [deliver_cons_refused haccepts hdone,
                deliver_cons_refused haccepts hdone, hdone]

theorem deliver_append (stage : σ) (before later : List Message)
    (h : (deliver stage before).refusal = none) :
    deliver stage (before ++ later) =
      (deliver (deliver stage before).state later).after
        (deliver stage before).messages (deliver stage before).shown := by
  rw [deliver_append_eq, h]

theorem deliver_append_of_refused (stage : σ) (before later : List Message)
    {error : Error} (h : (deliver stage before).refusal = some error) :
    deliver stage (before ++ later) = deliver stage before := by
  rw [deliver_append_eq, h]

theorem deliver_steady (stage : σ) {messages : List Message}
    {answer : Message → List Message}
    (h : ∀ message ∈ messages,
      (Component.accepts stage message = true ∧
        Component.handle stage message = .send stage (answer message)) ∨
      (Component.accepts stage message = false ∧ answer message = [message])) :
    deliver stage messages = .send stage (messages.flatMap answer) := by
  induction messages with
  | nil =>
      rfl
  | cons message rest ih =>
      rcases List.forall_mem_cons.mp h with ⟨hmessage, hrest⟩
      rw [List.flatMap_cons]
      rcases hmessage with ⟨haccepts, hhandle⟩ | ⟨haccepts, hanswer⟩
      · rw [deliver_cons_accepted haccepts (by rw [hhandle]; rfl), hhandle]
        change (deliver stage rest).after _ _ = _
        rw [ih hrest]
        rfl
      · rw [deliver_cons_passed haccepts, ih hrest, hanswer]
        rfl

theorem deliver_pass (stage : σ) {messages : List Message}
    (h : ∀ message ∈ messages, Component.accepts stage message = false) :
    deliver stage messages = .send stage messages := by
  have hsteady : deliver stage messages =
      .send stage (messages.flatMap fun message => [message]) :=
    deliver_steady stage fun message hmem => Or.inr ⟨h message hmem, rfl⟩
  rw [List.flatMap_singleton'] at hsteady
  exact hsteady

theorem deliver_singleton (stage : σ) {message : Message}
    (h : Component.accepts stage message = true) :
    deliver stage [message] = Component.handle stage message := by
  rw [deliver, if_pos h]
  cases hreply : Component.handle stage message with
  | mk state messages shown refusal =>
      cases refusal with
      | none =>
          simp [deliver, Reply.after, Reply.quiet]
      | some error =>
          rfl

theorem run_nil (stages : List σ) : run stages [] = .send stages [] := by
  induction stages with
  | nil =>
      rfl
  | cons stage rest ih =>
      rw [run, deliver]
      simp only [Reply.quiet]
      rw [ih]
      rfl

theorem run_cons (stage : σ) (stages : List σ) (messages : List Message)
    (h : (deliver stage messages).refusal = none) :
    run (stage :: stages) messages =
      ((run stages (deliver stage messages).messages).map fun later =>
        (deliver stage messages).state :: later).after []
          (deliver stage messages).shown := by
  rw [run]
  simp only [h]

theorem run_cons_refused (stage : σ) (stages : List σ)
    (messages : List Message) {error : Error}
    (h : (deliver stage messages).refusal = some error) :
    run (stage :: stages) messages =
      ⟨(deliver stage messages).state :: stages, [],
        (deliver stage messages).shown, some error⟩ := by
  rw [run]
  simp only [h]

theorem run_cons_of_send {stage stage' : σ} {messages answer : List Message}
    (h : deliver stage messages = .send stage' answer) (stages : List σ) :
    run (stage :: stages) messages =
      (run stages answer).map fun later => stage' :: later := by
  rw [run_cons _ _ _ (by rw [h]; rfl), h]
  rfl

theorem state_run (stage : σ) (stages : List σ) (messages : List Message) :
    (run (stage :: stages) messages).state =
      (deliver stage messages).state ::
        match (deliver stage messages).refusal with
        | none => (run stages (deliver stage messages).messages).state
        | some _ => stages := by
  rw [run]
  cases (deliver stage messages).refusal with
  | none =>
      rfl
  | some error =>
      rfl

theorem state_deliver {motive : σ → Prop} {messages : List Message}
    (h : ∀ stage, motive stage → ∀ message ∈ messages,
      motive (Component.handle stage message).state)
    {stage : σ} (hstage : motive stage) :
    motive (deliver stage messages).state := by
  induction messages generalizing stage with
  | nil =>
      exact hstage
  | cons message rest ih =>
      have hrest : ∀ stage, motive stage → ∀ message ∈ rest,
          motive (Component.handle stage message).state := by
        intro stage hstage message hmem
        exact h stage hstage message (List.mem_cons_of_mem _ hmem)
      have hhandle := h stage hstage message List.mem_cons_self
      rw [deliver]
      split
      · simp only
        split
        · exact ih hrest hhandle
        · exact hhandle
      · exact ih hrest hstage

theorem run_silent (stage : σ) (stages : List σ) (messages : List Message)
    (h : (deliver stage messages).messages = []) :
    (run (stage :: stages) messages).messages = [] ∧
      (run (stage :: stages) messages).state =
        (deliver stage messages).state :: stages ∧
      (run (stage :: stages) messages).refusal =
        (deliver stage messages).refusal := by
  cases hrefusal : (deliver stage messages).refusal with
  | none =>
      rw [run_cons stage stages messages hrefusal, h, run_nil]
      exact ⟨rfl, rfl, rfl⟩
  | some error =>
      rw [run_cons_refused stage stages messages hrefusal]
      exact ⟨rfl, rfl, rfl⟩

end Pipeline
end CudaProfile
