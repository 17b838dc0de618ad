import CudaProfile.Component.ThreadTracker
import CudaProfile.Proofs.Order.OrderedMap
/-!
# When the last thread terminates

Attaching adds running threads, and only a change to the terminated state can
make the last of the others terminated. So a tracker that finds all its threads
terminated does so at such a change, or did so before.
-/

namespace CudaProfile

namespace ThreadTracker

theorem allTerminated_iff {t : ThreadTracker} :
    t.allTerminated = true ↔
      (∃ name state, t.threads.get? name = some state) ∧
        ∀ name state, t.threads.get? name = some state →
          state = .terminated := by
  unfold allTerminated OrderedMap.isEmpty OrderedMap.values
  simp only [OrderedMap.get?_eq_some_iff, Bool.and_eq_true, List.all_map,
    List.all_eq_true, Function.comp_apply, decide_eq_true_iff]
  constructor
  · intro hall
    rcases hall with ⟨hsome, hall⟩
    constructor
    · cases hentries : t.threads.entries with
      | nil =>
          rw [hentries] at hsome
          cases hsome
      | cons e rest =>
          exact ⟨e.1, e.2, List.mem_cons_self⟩
    · intro name state hmem
      exact hall (name, state) hmem
  · intro hall
    rcases hall with ⟨⟨name, state, hmem⟩, hall⟩
    constructor
    · cases hentries : t.threads.entries with
      | nil =>
          rw [hentries] at hmem
          cases hmem
      | cons e rest =>
          rfl
    · intro entry hmem
      rcases entry with ⟨name, state⟩
      exact hall name state hmem

/-! ## Attaching to threads and changing them -/

theorem get?_attach (t : ThreadTracker) (r : ThreadRecord)
    (name : ThreadName) :
    (t.attach r).threads.get? name =
      if name = r.name then some ((t.threads.get? r.name).getD .running)
      else t.threads.get? name :=
  OrderedMap.get?_alter t.threads r.name name _

theorem get?_attachAll (t : ThreadTracker) (rs : List ThreadRecord)
    (name : ThreadName) :
    (t.attachAll rs).threads.get? name =
      if rs.any fun r => r.name = name then
        some ((t.threads.get? name).getD .running)
      else t.threads.get? name := by
  induction rs generalizing t with
  | nil =>
      rfl
  | cons r rest ih =>
      change ((t.attach r).attachAll rest).threads.get? name = _
      rw [ih, get?_attach, List.any_cons]
      by_cases hname : name = r.name
      · simp [hname]
      · simp [hname, Ne.symm hname]

theorem get?_change (state : ThreadState) (t : ThreadTracker)
    (r : ThreadRecord) (name : ThreadName) :
    (change state t r).threads.get? name =
      if name = r.name then (t.threads.get? name).map fun _ => state
      else t.threads.get? name := by
  unfold change OrderedMap.contains
  cases hknown : t.threads.get? r.name with
  | none =>
      by_cases hname : name = r.name
      · rw [if_pos hname, hname, hknown]
        exact hknown
      · rw [if_neg hname]
        rfl
  | some known =>
      change (t.threads.insert r.name state).get? name = _
      rw [OrderedMap.get?_insert]
      by_cases hname : name = r.name
      · rw [if_pos hname, if_pos hname, hname, hknown]
        rfl
      · rw [if_neg hname, if_neg hname]

theorem contains_change (state : ThreadState) (t : ThreadTracker)
    (r : ThreadRecord) (name : ThreadName) :
    (change state t r).threads.contains name = t.threads.contains name := by
  unfold OrderedMap.contains
  rw [get?_change]
  split
  · exact Option.isSome_map
  · rfl

theorem changes_filter (state : ThreadState) (t : ThreadTracker)
    (rs : List ThreadRecord) :
    (rs.filter fun r => t.threads.contains r.name).foldl (change state) t =
      rs.foldl (change state) t := by
  induction rs generalizing t with
  | nil =>
      rfl
  | cons r rest ih =>
      have hrest := ih (change state t r)
      simp only [contains_change] at hrest
      by_cases hknown : t.threads.contains r.name = true
      · rw [List.filter_cons, if_pos hknown, List.foldl_cons, hrest]
        rfl
      · have hsame : change state t r = t := if_neg hknown
        rw [List.filter_cons, if_neg hknown, List.foldl_cons, hsame, ih]

theorem get?_changes (state : ThreadState) (t : ThreadTracker)
    (rs : List ThreadRecord) (name : ThreadName) :
    (rs.foldl (change state) t).threads.get? name =
      if rs.any fun r => r.name = name then
        (t.threads.get? name).map fun _ => state
      else t.threads.get? name := by
  induction rs generalizing t with
  | nil =>
      rfl
  | cons r rest ih =>
      rw [List.foldl_cons, ih, get?_change, List.any_cons]
      by_cases hname : name = r.name
      · simp only [hname, if_true, decide_true, Bool.true_or, Option.map_map]
        split
        · rfl
        · rfl
      · simp [hname, Ne.symm hname]

/-! ## Whether the end was found -/

theorem allTerminated_congr {t u : ThreadTracker} (h : t.threads = u.threads) :
    t.allTerminated = u.allTerminated := by
  unfold allTerminated
  rw [h]

theorem finished_foldl {α : Type} {f : ThreadTracker → α → ThreadTracker}
    (hf : ∀ t a, (f t a).finished = t.finished) (t : ThreadTracker)
    (items : List α) : (items.foldl f t).finished = t.finished := by
  induction items generalizing t with
  | nil =>
      rfl
  | cons a rest ih =>
      exact (ih (f t a)).trans (hf t a)

theorem finished_attachAll (t : ThreadTracker) (rs : List ThreadRecord) :
    (t.attachAll rs).finished = t.finished :=
  finished_foldl (f := attach) (fun _ _ => rfl) t rs

theorem finished_change (state : ThreadState) (t : ThreadTracker)
    (r : ThreadRecord) : (change state t r).finished = t.finished := by
  unfold change
  split
  · rfl
  · rfl

/-! ## What makes all threads terminated -/

theorem allTerminated_of_attach {t : ThreadTracker} {r : ThreadRecord}
    (h : (t.attach r).allTerminated = true) : t.allTerminated = true := by
  rcases allTerminated_iff.mp h with ⟨_, hall⟩
  have hself := hall r.name _ ((t.get?_attach r r.name).trans (if_pos rfl))
  cases hknown : t.threads.get? r.name with
  | none =>
      rw [hknown] at hself
      cases hself
  | some known =>
      apply allTerminated_iff.mpr
      refine ⟨⟨r.name, known, hknown⟩, ?_⟩
      intro name state hname
      apply hall name state
      rw [get?_attach]
      by_cases heq : name = r.name
      · rw [if_pos heq, hknown]
        rw [heq, hknown] at hname
        exact hname
      · rw [if_neg heq]
        exact hname

theorem allTerminated_of_attachAll {t : ThreadTracker} {rs : List ThreadRecord}
    (h : (t.attachAll rs).allTerminated = true) : t.allTerminated = true := by
  induction rs generalizing t with
  | nil =>
      exact h
  | cons r rest ih =>
      exact allTerminated_of_attach (ih h)

theorem allTerminated_of_change {state : ThreadState}
    (hstate : state ≠ .terminated) {t : ThreadTracker} {r : ThreadRecord}
    (h : (change state t r).allTerminated = true) : t.allTerminated = true := by
  unfold change at h
  split at h
  · have hall := (allTerminated_iff.mp h).2 r.name state
    rw [OrderedMap.get?_insert, if_pos rfl] at hall
    exact absurd (hall rfl) hstate
  · exact h

theorem allTerminated_of_changes {state : ThreadState}
    (hstate : state ≠ .terminated) {t : ThreadTracker} {rs : List ThreadRecord}
    (h : (rs.foldl (change state) t).allTerminated = true) :
    t.allTerminated = true := by
  induction rs generalizing t with
  | nil =>
      exact h
  | cons r rest ih =>
      exact allTerminated_of_change hstate (ih h)

/-! ## State changes -/

theorem threads_update (t : ThreadTracker) (r : StateChangeRecord) :
    (t.update r).1.threads = (r.threads.foldl (change r.state) t).threads := by
  unfold update
  simp only
  split
  · rfl
  · rfl

/-- A tracker whose threads were not all terminated reports that they are when
they are, and remembers it. -/
theorem update_eq (t : ThreadTracker) (r : StateChangeRecord)
    (h : t.allTerminated = true → t.finished = true) :
    (t.update r).2 = (!t.finished &&
        (r.threads.foldl (change r.state) t).allTerminated) ∧
      (t.update r).1.finished = (t.finished ||
        (r.threads.foldl (change r.state) t).allTerminated) := by
  have hfinished : (r.threads.foldl (change r.state) t).finished =
      t.finished :=
    finished_foldl (finished_change r.state) t r.threads
  have hlast : (r.threads.foldl (change r.state) t).allTerminated = true →
      t.finished = false → r.state = .terminated := by
    intro hall hunfinished
    by_cases hstate : r.state = .terminated
    · exact hstate
    · have hdone := h (allTerminated_of_changes hstate hall)
      rw [hunfinished] at hdone
      cases hdone
  unfold update
  simp only [hfinished]
  cases hdone : t.finished with
  | true =>
      simp [hfinished, hdone]
  | false =>
      cases hall : (r.threads.foldl (change r.state) t).allTerminated with
      | true =>
          simp [hlast hall hdone]
      | false =>
          simp [hfinished, hdone]

end ThreadTracker
end CudaProfile
