import CudaProfile.Component.Stage
import CudaProfile.Proofs.Component.Pipeline
/-!
# Stage by stage, or message by message

A pipeline hands all that a stage sends to the next stage before that one sends
anything. What leaves the last stage, and the states that the stages end in, are
those of the other schedule, in which a message goes through all later stages
before the stage that sent it turns to anything else. So a pipeline can be cut
anywhere.
-/

namespace CudaProfile

/-! ## Replies without a refusal -/

/-- What is left and sent unless the message was refused. Texts are left out:
they are shown as the stages come to them, so their order is that of the
schedule. -/
structure Reply.Gives {σ : Type} (r : Reply σ) (state : σ)
    (messages : List Message) : Prop where
  refusal : r.refusal = none
  state : r.state = state
  messages : r.messages = messages

namespace Reply

variable {σ τ : Type} {r : Reply σ}

theorem gives_self (h : r.refusal = none) : r.Gives r.state r.messages :=
  ⟨h, rfl, rfl⟩

theorem Gives.not_refused {state : σ} {messages : List Message}
    (h : r.Gives state messages) {error : Error} : r.refusal ≠ some error := by
  rw [h.refusal]
  exact nofun

theorem gives_send {state state' : σ} {messages messages' : List Message} :
    (send state messages).Gives state' messages' ↔
      state = state' ∧ messages = messages' := by
  constructor
  · intro h
    exact ⟨h.state, h.messages⟩
  · intro h
    exact ⟨rfl, h.1, h.2⟩

theorem gives_after {before messages : List Message} {shown : List String}
    {state : σ} :
    (r.after before shown).Gives state messages ↔
      ∃ later, r.Gives state later ∧ messages = before ++ later := by
  constructor
  · intro h
    exact ⟨r.messages, ⟨h.refusal, h.state, rfl⟩, h.messages.symm⟩
  · intro h
    rcases h with ⟨later, ⟨hrefusal, hstate, rfl⟩, rfl⟩
    exact ⟨hrefusal, hstate, rfl⟩

theorem gives_map {f : σ → τ} {state : τ} {messages : List Message} :
    (r.map f).Gives state messages ↔
      ∃ inner, r.Gives inner messages ∧ state = f inner := by
  constructor
  · intro h
    exact ⟨r.state, ⟨h.refusal, rfl, h.messages⟩, h.state.symm⟩
  · intro h
    rcases h with ⟨inner, ⟨hrefusal, rfl, hmessages⟩, rfl⟩
    exact ⟨hrefusal, rfl, hmessages⟩

end Reply

namespace Pipeline

variable {σ : Type} [Component σ]

/-! ## The two schedules -/

/-- Messages go through stages one after the other, and what a stage makes of
one of them has gone through all later stages before the next one comes. -/
inductive DepthFirst :
    List σ → List Message → List σ → List Message → Prop
  | sent (messages : List Message) : DepthFirst [] messages [] messages
  | done (stages : List σ) : DepthFirst stages [] stages []
  | handled {stage : σ} {stages stages' last : List σ} {message : Message}
      {rest now later : List Message}
      (haccepts : Component.accepts stage message = true)
      (hdone : (Component.handle stage message).refusal = none)
      (hnow : DepthFirst stages (Component.handle stage message).messages
        stages' now)
      (hlater : DepthFirst ((Component.handle stage message).state :: stages')
        rest last later) :
      DepthFirst (stage :: stages) (message :: rest) last (now ++ later)
  | passed {stage : σ} {stages stages' last : List σ} {message : Message}
      {rest now later : List Message}
      (haccepts : Component.accepts stage message = false)
      (hnow : DepthFirst stages [message] stages' now)
      (hlater : DepthFirst (stage :: stages') rest last later) :
      DepthFirst (stage :: stages) (message :: rest) last (now ++ later)

/-- Stage by stage, one of the handlers that the messages reach refuses. -/
inductive Fails : List σ → List Message → Error → Prop
  | here {stage stage' : σ} {before sent : List Message} {message : Message}
      {error : Error}
      (hbefore : (deliver stage before).Gives stage' sent)
      (haccepts : Component.accepts stage' message = true)
      (hrefused : (Component.handle stage' message).refusal = some error)
      (stages : List σ) (rest : List Message) :
      Fails (stage :: stages) (before ++ message :: rest) error
  | later {stage stage' : σ} {stages : List σ} {messages sent : List Message}
      {error : Error}
      (hstage : (deliver stage messages).Gives stage' sent)
      (hlater : Fails stages sent error) :
      Fails (stage :: stages) messages error

/-! ## One stage -/

theorem deliver_append_gives {stage stage' : σ}
    {before rest sent : List Message} :
    (deliver stage (before ++ rest)).Gives stage' sent ↔
      ∃ next now later, (deliver stage before).Gives next now ∧
        (deliver next rest).Gives stage' later ∧ sent = now ++ later := by
  constructor
  · intro h
    cases hbefore : (deliver stage before).refusal with
    | none =>
        rw [deliver_append stage before rest hbefore, Reply.gives_after] at h
        rcases h with ⟨later, hlater, hsent⟩
        exact ⟨_, _, later, Reply.gives_self hbefore, hlater, hsent⟩
    | some error =>
        rw [deliver_append_of_refused stage before rest hbefore] at h
        exact absurd hbefore h.not_refused
  · intro h
    rcases h with ⟨next, now, later, ⟨hbefore, rfl, rfl⟩, hlater, rfl⟩
    rw [deliver_append stage before rest hbefore, Reply.gives_after]
    exact ⟨later, hlater, rfl⟩

theorem deliver_nil_gives {stage stage' : σ} {sent : List Message} :
    (deliver stage []).Gives stage' sent ↔ stage = stage' ∧ sent = [] := by
  rw [deliver]
  constructor
  · intro h
    exact ⟨h.state, h.messages.symm⟩
  · intro h
    exact ⟨rfl, h.1, h.2.symm⟩

theorem deliver_single_gives {stage stage' : σ} {message : Message}
    {sent : List Message} :
    (deliver stage [message]).Gives stage' sent ↔
      (Component.accepts stage message = true ∧
        (Component.handle stage message).Gives stage' sent) ∨
      (Component.accepts stage message = false ∧ stage = stage' ∧
        sent = [message]) := by
  cases haccepts : Component.accepts stage message with
  | true =>
      rw [deliver_singleton stage haccepts]
      simp
  | false =>
      rw [deliver_cons_passed haccepts, Reply.gives_after]
      simp only [deliver_nil_gives]
      constructor
      · intro h
        rcases h with ⟨later, ⟨hstage, rfl⟩, hsent⟩
        exact Or.inr ⟨trivial, hstage, hsent⟩
      · intro h
        rcases h with ⟨h, _⟩ | ⟨_, hstage, hsent⟩
        · cases h
        · exact ⟨[], ⟨hstage, rfl⟩, hsent⟩

theorem deliver_refused_iff {stage : σ} {messages : List Message}
    {error : Error} :
    (deliver stage messages).refusal = some error ↔
      ∃ before message rest stage' sent, messages = before ++ message :: rest ∧
        (deliver stage before).Gives stage' sent ∧
        Component.accepts stage' message = true ∧
        (Component.handle stage' message).refusal = some error := by
  constructor
  · intro h
    induction messages generalizing stage with
    | nil =>
        cases h
    | cons message rest ih =>
        cases hfirst : (deliver stage [message]).refusal with
        | none =>
            have hgives := Reply.gives_self hfirst
            rw [← List.singleton_append,
              deliver_append stage [message] rest hfirst] at h
            rcases ih h with
              ⟨before, next, after, stage', sent, rfl, hbefore, hnext⟩
            have hreached := deliver_append_gives.mpr
              ⟨_, _, sent, hgives, hbefore, rfl⟩
            exact ⟨message :: before, next, after, stage', _, rfl, hreached,
              hnext⟩
        | some other =>
            cases haccepts : Component.accepts stage message with
            | true =>
                rw [← List.singleton_append,
                  deliver_append_of_refused stage [message] rest hfirst,
                  deliver_singleton stage haccepts] at h
                exact ⟨[], message, rest, stage, [], rfl, ⟨rfl, rfl, rfl⟩,
                  haccepts, h⟩
            | false =>
                have hpass := deliver_single_gives.mpr
                  (Or.inr ⟨haccepts, rfl, rfl⟩)
                exact absurd hfirst hpass.not_refused
  · intro h
    rcases h with
      ⟨before, message, rest, stage', sent, rfl, hbefore, haccepts, hrefused⟩
    rcases hbefore with ⟨hrefusal, rfl, _⟩
    rw [deliver_append stage before _ hrefusal,
      deliver_cons_refused haccepts hrefused]
    exact hrefused

/-! ## All stages -/

theorem run_cons_gives {stage : σ} {stages last : List σ}
    {messages out : List Message} :
    (run (stage :: stages) messages).Gives last out ↔
      ∃ stage' sent stages', (deliver stage messages).Gives stage' sent ∧
        (run stages sent).Gives stages' out ∧ last = stage' :: stages' := by
  constructor
  · intro h
    cases hstage : (deliver stage messages).refusal with
    | none =>
        rw [run_cons stage stages messages hstage, Reply.gives_after] at h
        rcases h with ⟨later, hlater, rfl⟩
        rcases Reply.gives_map.mp hlater with ⟨stages', hstages, hlast⟩
        exact ⟨_, _, stages', Reply.gives_self hstage, hstages, hlast⟩
    | some error =>
        rw [run_cons_refused stage stages messages hstage] at h
        cases h.refusal
  · intro h
    rcases h with ⟨stage', sent, stages', ⟨hstage, rfl, rfl⟩, hstages, rfl⟩
    rw [run_cons stage stages messages hstage, Reply.gives_after]
    exact ⟨out, Reply.gives_map.mpr ⟨stages', hstages, rfl⟩, rfl⟩

theorem run_nil_gives {stages last : List σ} {out : List Message} :
    (run stages []).Gives last out ↔ stages = last ∧ out = [] := by
  rw [run_nil, Reply.gives_send]
  constructor
  · intro h
    exact ⟨h.1, h.2.symm⟩
  · intro h
    exact ⟨h.1, h.2.symm⟩

/-- The stages take messages in parts. This is where the schedules meet: the
first stage has seen both parts before the second one sees any, but neither of
them depends on the other. -/
theorem run_append_gives {stages last : List σ}
    {before rest out : List Message} :
    (run stages (before ++ rest)).Gives last out ↔
      ∃ middle now later, (run stages before).Gives middle now ∧
        (run middle rest).Gives last later ∧ out = now ++ later := by
  induction stages generalizing before rest last out with
  | nil =>
      constructor
      · intro h
        rcases Reply.gives_send.mp h with ⟨rfl, rfl⟩
        exact ⟨[], before, rest, ⟨rfl, rfl, rfl⟩, ⟨rfl, rfl, rfl⟩, rfl⟩
      · intro h
        rcases h with ⟨middle, now, later, hnow, hlater, rfl⟩
        rcases Reply.gives_send.mp hnow with ⟨rfl, rfl⟩
        rcases Reply.gives_send.mp hlater with ⟨rfl, rfl⟩
        exact ⟨rfl, rfl, rfl⟩
  | cons stage stages ih =>
      constructor
      · intro h
        rcases run_cons_gives.mp h with ⟨stage', sent, stages', hstage,
          hstages, rfl⟩
        rcases deliver_append_gives.mp hstage with ⟨next, first, second,
          hfirst, hsecond, rfl⟩
        rcases ih.mp hstages with ⟨middle, now, later, hnow, hlater, rfl⟩
        exact ⟨next :: middle, now, later,
          run_cons_gives.mpr ⟨next, first, middle, hfirst, hnow, rfl⟩,
          run_cons_gives.mpr ⟨stage', second, stages', hsecond, hlater, rfl⟩,
          rfl⟩
      · intro h
        rcases h with ⟨middle, now, later, hnow, hlater, rfl⟩
        rcases run_cons_gives.mp hnow with ⟨next, first, middle, hfirst,
          hmiddle, rfl⟩
        rcases run_cons_gives.mp hlater with ⟨stage', second, stages', hsecond,
          hstages, rfl⟩
        exact run_cons_gives.mpr ⟨stage', first ++ second, stages',
          deliver_append_gives.mpr
            ⟨next, first, second, hfirst, hsecond, rfl⟩,
          ih.mpr ⟨middle, now, later, hmiddle, hstages, rfl⟩, rfl⟩

theorem run_stages_append_gives {front back last : List σ}
    {messages out : List Message} :
    (run (front ++ back) messages).Gives last out ↔
      ∃ front' sent back', (run front messages).Gives front' sent ∧
        (run back sent).Gives back' out ∧ last = front' ++ back' := by
  induction front generalizing messages last with
  | nil =>
      constructor
      · intro h
        exact ⟨[], messages, last, ⟨rfl, rfl, rfl⟩, h, rfl⟩
      · intro h
        rcases h with ⟨front', sent, back', hfront, hback, rfl⟩
        rcases Reply.gives_send.mp hfront with ⟨rfl, rfl⟩
        exact hback
  | cons stage front ih =>
      rw [List.cons_append, run_cons_gives]
      constructor
      · intro h
        rcases h with ⟨stage', first, rest, hstage, hrest, rfl⟩
        rcases ih.mp hrest with ⟨front', sent, back', hfront, hback, rfl⟩
        exact ⟨stage' :: front', sent, back',
          run_cons_gives.mpr ⟨stage', first, front', hstage, hfront, rfl⟩,
          hback, rfl⟩
      · intro h
        rcases h with ⟨middle, sent, back', hmiddle, hback, rfl⟩
        rcases run_cons_gives.mp hmiddle with ⟨stage', first, front', hstage,
          hfront, rfl⟩
        exact ⟨stage', first, front' ++ back', hstage,
          ih.mpr ⟨front', sent, back', hfront, hback, rfl⟩, rfl⟩

theorem sendAll_cons_gives {stages last : List σ} {message : Message}
    {rest out : List Message} :
    (sendAll stages (message :: rest)).Gives last out ↔
      ∃ middle now later, (run stages [message]).Gives middle now ∧
        (sendAll middle rest).Gives last later ∧ out = now ++ later := by
  rw [sendAll, send]
  constructor
  · intro h
    cases hfirst : (run stages [message]).refusal with
    | none =>
        simp only [hfirst] at h
        rcases Reply.gives_after.mp h with ⟨later, hlater, rfl⟩
        exact ⟨_, _, later, Reply.gives_self hfirst, hlater, rfl⟩
    | some error =>
        simp only [hfirst] at h
        exact absurd hfirst h.not_refused
  · intro h
    rcases h with ⟨middle, now, later, ⟨hfirst, rfl, rfl⟩, hlater, rfl⟩
    simp only [hfirst]
    exact Reply.gives_after.mpr ⟨later, hlater, rfl⟩

theorem sendAll_gives {stages last : List σ} {messages out : List Message} :
    (sendAll stages messages).Gives last out ↔
      (run stages messages).Gives last out := by
  induction messages generalizing stages out with
  | nil =>
      rw [run_nil, sendAll]
      rfl
  | cons message rest ih =>
      rw [sendAll_cons_gives]
      simp only [ih]
      exact run_append_gives.symm

/-! ## The schedules agree -/

theorem length_of_gives {stages last : List σ} {messages out : List Message}
    (h : (run stages messages).Gives last out) :
    last.length = stages.length := by
  induction stages generalizing messages last with
  | nil =>
      rcases Reply.gives_send.mp h with ⟨rfl, _⟩
      rfl
  | cons stage stages ih =>
      rcases run_cons_gives.mp h with ⟨stage', sent, stages', _, hstages, rfl⟩
      rw [List.length_cons, List.length_cons, ih hstages]

theorem gives_of_depthFirst {stages last : List σ}
    {messages out : List Message} (h : DepthFirst stages messages last out) :
    (run stages messages).Gives last out := by
  induction h with
  | sent messages =>
      exact ⟨rfl, rfl, rfl⟩
  | done stages =>
      exact run_nil_gives.mpr ⟨rfl, rfl⟩
  | handled haccepts hdone _ _ ihnow ihlater =>
      have hstage := deliver_single_gives.mpr
        (Or.inl ⟨haccepts, Reply.gives_self hdone⟩)
      have hfirst := run_cons_gives.mpr ⟨_, _, _, hstage, ihnow, rfl⟩
      exact run_append_gives.mpr ⟨_, _, _, hfirst, ihlater, rfl⟩
  | passed haccepts _ _ ihnow ihlater =>
      have hstage := deliver_single_gives.mpr (Or.inr ⟨haccepts, rfl, rfl⟩)
      have hfirst := run_cons_gives.mpr ⟨_, _, _, hstage, ihnow, rfl⟩
      exact run_append_gives.mpr ⟨_, _, _, hfirst, ihlater, rfl⟩

theorem depthFirst_of_gives {count : Nat} {stages last : List σ}
    {messages out : List Message} (hcount : stages.length = count)
    (h : (run stages messages).Gives last out) :
    DepthFirst stages messages last out := by
  -- What a stage sends meets later stages that have changed, but as many.
  induction count generalizing stages last messages out with
  | zero =>
      rw [List.length_eq_zero_iff] at hcount
      subst hcount
      rcases Reply.gives_send.mp h with ⟨rfl, rfl⟩
      exact .sent messages
  | succ count ih =>
      induction messages generalizing stages last out with
      | nil =>
          rcases run_nil_gives.mp h with ⟨rfl, rfl⟩
          exact .done stages
      | cons message rest ihrest =>
          have hparts : (run stages ([message] ++ rest)).Gives last out := h
          rcases run_append_gives.mp hparts with
            ⟨middle, now, later, hnow, hlater, rfl⟩
          have hmiddle := length_of_gives hnow
          rw [hcount] at hmiddle
          have hrest := ihrest hmiddle hlater
          cases stages with
          | nil =>
              cases hcount
          | cons stage stages =>
              rcases run_cons_gives.mp hnow with
                ⟨stage', sent, stages', hstage, hstages, rfl⟩
              have hdown := ih (Nat.succ.inj hcount) hstages
              rcases deliver_single_gives.mp hstage with
                ⟨haccepts, hhandle⟩ | ⟨haccepts, rfl, rfl⟩
              · rcases hhandle with ⟨hdone, rfl, rfl⟩
                exact .handled haccepts hdone hdown hrest
              · exact .passed haccepts hdown hrest

theorem depthFirst_iff {stages last : List σ} {messages out : List Message} :
    DepthFirst stages messages last out ↔
      (run stages messages).Gives last out :=
  ⟨gives_of_depthFirst, depthFirst_of_gives rfl⟩

/-! ## Refusals -/

theorem fails_iff {stages : List σ} {messages : List Message}
    {error : Error} :
    Fails stages messages error ↔
      (run stages messages).refusal = some error := by
  constructor
  · intro h
    induction h with
    | here hbefore haccepts hrefused stages rest =>
        have hstage := deliver_refused_iff.mpr
          ⟨_, _, rest, _, _, rfl, hbefore, haccepts, hrefused⟩
        rw [run_cons_refused _ _ _ hstage]
    | later hstage _ ih =>
        rcases hstage with ⟨hrefusal, rfl, rfl⟩
        rw [run_cons _ _ _ hrefusal]
        exact ih
  · intro h
    induction stages generalizing messages with
    | nil =>
        cases h
    | cons stage stages ih =>
        cases hstage : (deliver stage messages).refusal with
        | none =>
            rw [run_cons stage stages messages hstage] at h
            exact .later (Reply.gives_self hstage) (ih h)
        | some other =>
            rw [run_cons_refused stage stages messages hstage] at h
            cases h
            rcases deliver_refused_iff.mp hstage with
              ⟨before, message, rest, stage', sent, rfl, hbefore, haccepts,
                hrefused⟩
            exact .here hbefore haccepts hrefused stages rest

theorem run_of_refused {stages : List σ} {messages : List Message}
    (h : (run stages messages).refusal ≠ none) :
    (run stages messages).messages = [] := by
  induction stages generalizing messages with
  | nil =>
      exact absurd rfl h
  | cons stage stages ih =>
      cases hstage : (deliver stage messages).refusal with
      | none =>
          rw [run_cons stage stages messages hstage] at h ⊢
          exact ih h
      | some error =>
          rw [run_cons_refused stage stages messages hstage]

/-! ## Sending a message -/

/-- The result of sending one message through stages does not depend on the
schedule, nor on where the stages are cut, unless a handler refuses; then
nothing is sent. -/
theorem schedules_agree (stages : List σ) (message : Message) :
    ((∀ error, ¬Fails stages [message] error) ↔
      ∃ last out, DepthFirst stages [message] last out) ∧
    ((∀ error, ¬Fails stages [message] error) →
      (∀ last out, DepthFirst stages [message] last out →
        (send stages message).state = last ∧
          (send stages message).messages = out) ∧
      ∀ front back, stages = front ++ back →
        let first := send front message
        let second := sendAll back first.messages
        first.refusal = none ∧ second.refusal = none ∧
          (send stages message).state = first.state ++ second.state ∧
          (send stages message).messages = second.messages) ∧
    ∀ error, Fails stages [message] error →
      (send stages message).refusal = some error ∧
        (send stages message).messages = [] := by
  have hdone (h : ∀ error, ¬Fails stages [message] error) :
      (send stages message).refusal = none := by
    rw [Option.eq_none_iff_forall_ne_some]
    intro error hrefused
    exact h error (fails_iff.mpr hrefused)
  refine ⟨⟨?_, ?_⟩, ?_, ?_⟩
  · intro h
    exact ⟨_, _, depthFirst_iff.mpr (Reply.gives_self (hdone h))⟩
  · intro h error hfails
    rcases h with ⟨last, out, hdepth⟩
    exact (gives_of_depthFirst hdepth).not_refused (fails_iff.mp hfails)
  · intro h
    constructor
    · intro last out hdepth
      have hgives := gives_of_depthFirst hdepth
      exact ⟨hgives.state, hgives.messages⟩
    · intro front back hcut
      subst hcut
      rcases run_stages_append_gives.mp (Reply.gives_self (hdone h)) with
        ⟨front', sent, back', hfront, hback, hstate⟩
      rcases hfront with ⟨hfirst, rfl, rfl⟩
      have hsecond : (sendAll back (send front message).messages).Gives back'
          (send (front ++ back) message).messages := sendAll_gives.mpr hback
      refine ⟨hfirst, hsecond.refusal, ?_, hsecond.messages.symm⟩
      rw [hsecond.state]
      exact hstate
  · intro error hfails
    have hrefused := fails_iff.mp hfails
    refine ⟨hrefused, run_of_refused ?_⟩
    rw [hrefused]
    exact nofun

def oneThread : List Stage :=
  let thread : ThreadRecord := .ofName ⟨"a", 1, none, none⟩
  after (aggregation false)
    [.attachedToThreads ⟨[thread]⟩,
      .data (Cuda.Data.toBlob ⟨[.request ⟨.memoryCopy, 10, 1, 2, 3, 0⟩],
        [7, 8, 0]⟩ ⟨0, 0, Cuda.collectorId, thread, ⟨0, 1⟩⟩)]

theorem schedules_agree_one_thread :
    let ends : Message :=
      .threadsStateChanged ⟨[.ofName ⟨"a", 1, none, none⟩], .terminated⟩
    (∀ error, ¬Fails oneThread [ends] error) ∧
    DepthFirst oneThread [ends] (send oneThread ends).state
      (send oneThread ends).messages ∧
    (send (oneThread.take 1) ends).messages.length = 4 ∧
    (send oneThread ends).messages.length = 5 ∧
    (sendAll (oneThread.drop 1)
      (send (oneThread.take 1) ends).messages).messages =
        (send oneThread ends).messages := by
  intro ends
  have hsent : (send oneThread ends).refusal = none := by
    decide +kernel
  have hnone : ∀ error, ¬Fails oneThread [ends] error := by
    intro error hfails
    have hrefused := ((schedules_agree oneThread ends).2.2 error hfails).1
    rw [hsent] at hrefused
    cases hrefused
  rcases (schedules_agree oneThread ends).2.1 hnone with ⟨hdepth, hcut⟩
  rcases (schedules_agree oneThread ends).1.mp hnone with ⟨last, out, h⟩
  refine ⟨hnone, ?_, by decide +kernel, by decide +kernel, ?_⟩
  · rw [(hdepth last out h).1, (hdepth last out h).2]
    exact h
  · exact (hcut _ _ (List.take_append_drop 1 oneThread).symm).2.2.2.symm

end Pipeline
end CudaProfile
