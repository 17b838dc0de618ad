import CudaProfile.Visit
/-!
# Laws of visiting

What a visitor sees of a list is a front part of it, up to and with the first
item after which it has seen enough. The visitors are any at all: to tell what
one of them sees, it is run along with a list of what it is shown.
-/

namespace CudaProfile

variable {α σ : Type} (visitor : σ → α → σ × Bool)

def afterSeeing (state : σ) (items : List α) : σ :=
  items.foldl (fun state item => (visitor state item).1) state

def recorded (known : List α × σ) (item : α) : (List α × σ) × Bool :=
  let (next, more) := visitor known.2 item
  ((known.1 ++ [item], next), more)

/-- Some items are those that a visitor is to be shown among given ones: all of
them if it never has enough, and otherwise those up to the first after which it
has. -/
structure Suffices (state : σ) (items seen : List α) : Prop where
  front : seen <+: items
  goes_on : ∀ before item rest, before ++ item :: rest = seen → rest ≠ [] →
    (visitor (afterSeeing visitor state before) item).2 = true
  ends : seen = items ∨ ∃ before item, seen = before ++ [item] ∧
    (visitor (afterSeeing visitor state before) item).2 = false

section Steps

variable {visitor} {state : σ}

theorem suffices_nil : Suffices visitor state [] [] := by
  constructor
  · exact List.prefix_rfl
  · intro before item rest hseen
    simp at hseen
  · exact Or.inl rfl

theorem suffices_stop {item : α} (h : (visitor state item).2 = false)
    (rest : List α) : Suffices visitor state (item :: rest) [item] := by
  constructor
  · exact List.prefix_append [item] rest
  · intro before other later hseen hlater
    cases before with
    | nil =>
        cases hseen
        exact absurd rfl hlater
    | cons first before =>
        simp at hseen
  · exact Or.inr ⟨[], item, rfl, h⟩

theorem Suffices.cons {item : α} {rest seen : List α}
    (h : Suffices visitor (visitor state item).1 rest seen)
    (hmore : (visitor state item).2 = true) :
    Suffices visitor state (item :: rest) (item :: seen) := by
  constructor
  · exact (List.prefix_cons_inj item).mpr h.front
  · intro before other later hseen hlater
    cases before with
    | nil =>
        cases hseen
        exact hmore
    | cons first before =>
        cases hseen
        exact h.goes_on before other later rfl hlater
  · rcases h.ends with rfl | ⟨before, last, rfl, hlast⟩
    · exact Or.inl rfl
    · exact Or.inr ⟨item :: before, last, rfl, hlast⟩

end Steps

theorem visit_suffices (state : σ) (items : List α) :
    ∃ seen more, Suffices visitor state items seen ∧
      visit visitor state items = (afterSeeing visitor state seen, more) ∧
      ∀ kept, visit (recorded visitor) (kept, state) items =
        ((kept ++ seen, afterSeeing visitor state seen), more) := by
  induction items generalizing state with
  | nil =>
      refine ⟨[], true, suffices_nil, rfl, ?_⟩
      intro kept
      rw [List.append_nil]
      rfl
  | cons item rest ih =>
      cases hmore : (visitor state item).2 with
      | false =>
          refine ⟨[item], false, suffices_stop hmore rest, ?_, ?_⟩
          · simp [visit, hmore, afterSeeing]
          · intro kept
            simp [visit, recorded, hmore, afterSeeing]
      | true =>
          rcases ih (visitor state item).1 with
            ⟨seen, more, hseen, hvisit, hrecorded⟩
          refine ⟨item :: seen, more, hseen.cons hmore, ?_, ?_⟩
          · simp only [visit, hmore, if_true]
            exact hvisit
          · intro kept
            simp only [visit, recorded, hmore, if_true]
            rw [hrecorded, List.append_assoc]
            rfl

theorem visit_append (state : σ) (before later : List α) :
    visit visitor state (before ++ later) =
      if (visit visitor state before).2 then
        visit visitor (visit visitor state before).1 later
      else ((visit visitor state before).1, false) := by
  induction before generalizing state with
  | nil =>
      rfl
  | cons item rest ih =>
      cases hmore : (visitor state item).2 with
      | false =>
          simp [visit, hmore]
      | true =>
          simp only [List.cons_append, visit, hmore, if_true]
          exact ih _

theorem visit_keepUpTo_none (kept items : List α) :
    visit (keepUpTo none) kept items = (kept ++ items, true) := by
  induction items generalizing kept with
  | nil =>
      rw [List.append_nil]
      rfl
  | cons item rest ih =>
      simp only [visit, keepUpTo, if_true]
      rw [ih, List.append_assoc]
      rfl

end CudaProfile
