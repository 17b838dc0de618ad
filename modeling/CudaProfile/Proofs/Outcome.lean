import CudaProfile.Outcome
/-!
# Operations one after the other

An operation carried out for one item after the other stops where it is refused.
So the whole is refused exactly if one of the states on the way refuses its
item, and what every single step preserves is preserved, refused or not.
-/

namespace CudaProfile
namespace Outcome

variable {σ α : Type} {step : σ → α → Outcome σ}

theorem eq_done_iff {o : Outcome σ} {state : σ} :
    o = done state ↔ o.state = state ∧ o.refusal = none := by
  rcases o with ⟨reached, refusal⟩
  simp [done]

theorem forEach_cons_of_done {state next : σ} {item : α}
    (h : step state item = done next) (rest : List α) :
    forEach step state (item :: rest) = forEach step next rest := by
  rw [forEach, h]
  rfl

theorem forEach_cons_of_refused {state : σ} {item : α}
    (h : (step state item).refusal ≠ none) (rest : List α) :
    forEach step state (item :: rest) = step state item := by
  rw [forEach]
  unfold andThen
  split
  · next hnone =>
    exact absurd hnone h
  · rfl

theorem forEach_singleton (state : σ) (item : α) :
    forEach step state [item] = step state item := by
  by_cases h : (step state item).refusal = none
  · have hdone : step state item = done (step state item).state :=
      eq_done_iff.mpr ⟨rfl, h⟩
    rw [forEach_cons_of_done hdone]
    exact hdone.symm
  · exact forEach_cons_of_refused h []

theorem forEach_append_of_done {state reached : σ} {before : List α}
    (h : forEach step state before = done reached) (after : List α) :
    forEach step state (before ++ after) = forEach step reached after := by
  induction before generalizing state with
  | nil =>
      cases h
      rfl
  | cons first rest ih =>
      by_cases hfirst : (step state first).refusal = none
      · have hdone : step state first = done (step state first).state :=
          eq_done_iff.mpr ⟨rfl, hfirst⟩
        rw [forEach_cons_of_done hdone] at h
        rw [List.cons_append, forEach_cons_of_done hdone]
        exact ih h
      · rw [forEach_cons_of_refused hfirst] at h
        exact absurd (eq_done_iff.mp h).2 hfirst

theorem refusal_forEach_iff {state : σ} {items : List α} :
    (forEach step state items).refusal ≠ none ↔
      ∃ before item after reached, items = before ++ item :: after ∧
        forEach step state before = done reached ∧
          (step reached item).refusal ≠ none := by
  induction items generalizing state with
  | nil =>
      constructor
      · intro h
        exact absurd rfl h
      · intro h
        rcases h with ⟨before, item, after, _, hitems, _⟩
        simp at hitems
  | cons first rest ih =>
      by_cases hfirst : (step state first).refusal = none
      · have hdone : step state first = done (step state first).state :=
          eq_done_iff.mpr ⟨rfl, hfirst⟩
        rw [forEach_cons_of_done hdone, ih]
        constructor
        · intro h
          rcases h with ⟨before, item, after, reached, rfl, hbefore, hitem⟩
          refine ⟨first :: before, item, after, reached, rfl, ?_, hitem⟩
          rw [forEach_cons_of_done hdone]
          exact hbefore
        · intro h
          rcases h with ⟨before, item, after, reached, hitems, hbefore, hitem⟩
          cases before with
          | nil =>
              cases hitems
              cases hbefore
              exact absurd hfirst hitem
          | cons head before =>
              cases hitems
              rw [forEach_cons_of_done hdone] at hbefore
              exact ⟨before, item, after, reached, rfl, hbefore, hitem⟩
      · rw [forEach_cons_of_refused hfirst]
        constructor
        · intro _
          exact ⟨[], first, rest, state, rfl, rfl, hfirst⟩
        · intro _
          exact hfirst

theorem exists_of_forEach_append {state : σ} {before after : List α}
    (h : (forEach step state (before ++ after)).refusal = none) :
    ∃ reached, forEach step state before = done reached ∧
      (forEach step reached after).refusal = none := by
  by_cases hbefore : (forEach step state before).refusal = none
  · have hdone : forEach step state before =
        done (forEach step state before).state :=
      eq_done_iff.mpr ⟨rfl, hbefore⟩
    rw [forEach_append_of_done hdone] at h
    exact ⟨_, hdone, h⟩
  · rcases refusal_forEach_iff.mp hbefore with
      ⟨earlier, item, later, reached, rfl, hearlier, hitem⟩
    refine absurd h (refusal_forEach_iff.mpr ?_)
    exact ⟨earlier, item, later ++ after, reached, by simp, hearlier, hitem⟩

/-- What no step breaks, refused or not, holds in the end. -/
theorem forEach_induction {motive : σ → Prop}
    (hstep : ∀ state item, motive state → motive (step state item).state)
    {state : σ} (h : motive state) (items : List α) :
    motive (forEach step state items).state := by
  induction items generalizing state with
  | nil =>
      exact h
  | cons first rest ih =>
      have hfirst := hstep state first h
      by_cases hrefusal : (step state first).refusal = none
      · rw [forEach_cons_of_done (eq_done_iff.mpr ⟨rfl, hrefusal⟩)]
        exact ih hfirst
      · rw [forEach_cons_of_refused hrefusal]
        exact hfirst

end Outcome
end CudaProfile
