import CudaProfile.Proofs.Wire.Log
/-!
# Named and unnamed features

A vector that starts empty takes features of one sort only, all named or all
unnamed, since every further one is compared with the first. What is refused
leaves no trace. Reading a vector from bytes compares nothing: it gives the
vector that was written, and a mixed one stays mixed whatever is added to it.
-/

namespace CudaProfile
namespace FeatureVector

/-- All features are named, or none is. -/
def Uniform (v : FeatureVector) : Prop :=
  ∃ named, ∀ f ∈ v.features, f.isNamed = named

instance (v : FeatureVector) : Decidable v.Uniform :=
  inferInstanceAs (Decidable (∃ named : Bool, ∀ f ∈ v.features, _ = named))

def Fits (features : List Feature) (f : Feature) : Prop :=
  ∀ first ∈ features.head?, first.isNamed = f.isNamed

instance (features : List Feature) (f : Feature) :
    Decidable (Fits features f) :=
  inferInstanceAs (Decidable (∀ first ∈ features.head?, _))

def offerAll (v : FeatureVector) (fs : List Feature) : FeatureVector :=
  fs.foldl (fun v f => (v.offer f).state) v

variable {v : FeatureVector} {f : Feature} {features rest : List Feature}

/-! ## The first feature -/

theorem fits_nil (f : Feature) : Fits [] f := by
  intro first hfirst
  cases hfirst

theorem fits_cons_iff {first : Feature} :
    Fits (first :: rest) f ↔ first.isNamed = f.isNamed := by
  constructor
  · intro h
    exact h first rfl
  · intro h g hg
    cases hg
    exact h

theorem fits_append_cons_iff :
    Fits (features ++ f :: rest) f ↔ Fits features f := by
  cases features with
  | nil =>
      exact iff_of_true (fits_cons_iff.mpr rfl) (fits_nil f)
  | cons first others =>
      exact fits_cons_iff.trans fits_cons_iff.symm

theorem uniform_iff_fits : v.Uniform ↔ ∀ f ∈ v.features, Fits v.features f := by
  rcases v with ⟨name, thread, features⟩
  cases features with
  | nil =>
      apply iff_of_true
      · exact ⟨true, List.forall_mem_nil _⟩
      · exact List.forall_mem_nil _
  | cons first rest =>
      constructor
      · intro h f hf
        rcases h with ⟨named, hall⟩
        rw [fits_cons_iff, hall first List.mem_cons_self, hall f hf]
      · intro h
        refine ⟨first.isNamed, ?_⟩
        intro f hf
        exact (fits_cons_iff.mp (h f hf)).symm

/-! ## One feature more -/

theorem offer_of_fits (h : Fits v.features f) :
    v.offer f = .done { v with features := v.features ++ [f] } := by
  rcases v with ⟨name, thread, features⟩
  cases features with
  | nil =>
      rfl
  | cons first rest =>
      exact if_pos (fits_cons_iff.mp h)

theorem offer_of_not_fits (h : ¬Fits v.features f) :
    v.offer f = .refused v (.mixedFeatures v.name) := by
  rcases v with ⟨name, thread, features⟩
  cases features with
  | nil =>
      exact absurd (fits_nil f) h
  | cons first rest =>
      exact if_neg fun hsame => h (fits_cons_iff.mpr hsame)

theorem refusal_offer_iff : (v.offer f).refusal ≠ none ↔ ¬Fits v.features f := by
  by_cases h : Fits v.features f
  · rw [offer_of_fits h]
    exact iff_of_false (fun hrefused => hrefused rfl) (not_not_intro h)
  · rw [offer_of_not_fits h]
    exact iff_of_true (Option.some_ne_none _) h

theorem state_offer_of_refused (h : (v.offer f).refusal ≠ none) :
    (v.offer f).state = v := by
  rw [offer_of_not_fits (refusal_offer_iff.mp h)]
  rfl

theorem uniform_offer_iff : (v.offer f).state.Uniform ↔ v.Uniform := by
  by_cases h : Fits v.features f
  · rw [offer_of_fits h]
    constructor
    · intro hafter
      rcases hafter with ⟨named, hall⟩
      exact ⟨named, fun g hg => hall g (List.mem_append_left _ hg)⟩
    · intro hbefore
      rcases hbefore with ⟨named, hall⟩
      refine ⟨f.isNamed, ?_⟩
      intro g hg
      rcases List.mem_append.mp hg with hg | hg
      · rcases List.exists_cons_of_ne_nil (List.ne_nil_of_mem hg) with
          ⟨first, rest, hfeatures⟩
        rw [hfeatures] at h
        have hfirst := hall first (hfeatures ▸ List.mem_cons_self)
        rw [hall g hg, ← hfirst, fits_cons_iff.mp h]
      · rw [List.mem_singleton.mp hg]
  · rw [offer_of_not_fits h]
    rfl

/-! ## Any number of features -/

theorem uniform_offerAll_iff (v : FeatureVector) (fs : List Feature) :
    (v.offerAll fs).Uniform ↔ v.Uniform := by
  induction fs generalizing v with
  | nil =>
      rfl
  | cons f rest ih =>
      exact (ih (v.offer f).state).trans uniform_offer_iff

/-- The features that fit to the first of all, which they may be themselves. -/
def fitting (v : FeatureVector) (fs : List Feature) : List Feature :=
  fs.filter fun f => Fits (v.features ++ fs) f

theorem fitting_cons_of_fits (h : Fits v.features f) (rest : List Feature) :
    v.fitting (f :: rest) =
      f :: fitting { v with features := v.features ++ [f] } rest := by
  have hfits : Fits (v.features ++ f :: rest) f := fits_append_cons_iff.mpr h
  unfold fitting
  rw [List.filter_cons_of_pos (p := fun g => decide (Fits _ g))
    (decide_eq_true hfits)]
  simp only [List.append_assoc, List.singleton_append]

theorem fitting_cons_of_not_fits (h : ¬Fits v.features f)
    (rest : List Feature) : v.fitting (f :: rest) = v.fitting rest := by
  have hfits : ¬Fits (v.features ++ f :: rest) f :=
    fun hfits => h (fits_append_cons_iff.mp hfits)
  unfold fitting
  rw [List.filter_cons_of_neg (p := fun g => decide (Fits _ g))
    (by simpa using hfits)]
  rcases v with ⟨name, thread, features⟩
  cases features with
  | nil =>
      exact absurd (fits_nil f) h
  | cons first others =>
      rfl

theorem offerAll_eq (v : FeatureVector) (fs : List Feature) :
    v.offerAll fs = { v with features := v.features ++ v.fitting fs } := by
  induction fs generalizing v with
  | nil =>
      show v = { v with features := v.features ++ [] }
      rw [List.append_nil]
  | cons f rest ih =>
      show (v.offer f).state.offerAll rest = _
      rw [ih]
      by_cases h : Fits v.features f
      · rw [fitting_cons_of_fits h, offer_of_fits h]
        simp only [Outcome.done, List.append_assoc, List.singleton_append]
      · rw [fitting_cons_of_not_fits h, offer_of_not_fits h]
        rfl

theorem uniform_new (name : String) (thread : ThreadName) :
    (new name thread).Uniform :=
  ⟨true, List.forall_mem_nil _⟩

theorem uniform_iff_exists_offerAll :
    v.Uniform ↔ ∃ name thread fs, (new name thread).offerAll fs = v := by
  constructor
  · intro h
    have hall : (new v.name v.thread).fitting v.features = v.features := by
      apply List.filter_eq_self.mpr
      intro f hf
      exact decide_eq_true (uniform_iff_fits.mp h f hf)
    refine ⟨v.name, v.thread, v.features, ?_⟩
    rw [offerAll_eq, hall]
    rfl
  · intro h
    rcases h with ⟨name, thread, fs, rfl⟩
    exact (uniform_offerAll_iff _ fs).mpr (uniform_new name thread)

/-! ## Vectors from bytes -/

theorem decode_put_feature
    (h : (Wire.Format.message.put (.feature v)).length < 2 ^ 64) :
    Wire.decode Wire.Format.message (Wire.Format.message.put (.feature v)) =
      .ok (.feature v) := by
  have hrestorable : Wire.Format.Restorable (.feature v) := by
    intro s hs
    cases hs
  unfold Wire.decode
  rw [Wire.Format.restores_message.decode_put hrestorable h]

/-- A feature is refused exactly if it is of another sort than the first one,
and leaves the vector as it was. Whatever is offered, a vector stays uniform or
mixed; so what is built from an empty one is uniform, and every uniform vector
can be built so. From bytes every vector is read, mixed ones as well. -/
theorem uniform_unless_read (v : FeatureVector) (f : Feature)
    (fs : List Feature) :
    ((v.offer f).refusal ≠ none ↔ ¬Fits v.features f) ∧
      ((v.offer f).refusal ≠ none → (v.offer f).state = v) ∧
      v.offerAll fs = { v with features := v.features ++ v.fitting fs } ∧
      ((v.offerAll fs).Uniform ↔ v.Uniform) ∧
      (v.Uniform ↔ ∃ name thread fs, (new name thread).offerAll fs = v) ∧
      ((Wire.Format.message.put (.feature v)).length < 2 ^ 64 →
        ∃ bytes, Wire.decode Wire.Format.message bytes = .ok (.feature v)) :=
  ⟨refusal_offer_iff, state_offer_of_refused, offerAll_eq v fs,
    uniform_offerAll_iff v fs, uniform_iff_exists_offerAll,
    fun h => ⟨_, decode_put_feature h⟩⟩

def mixed : FeatureVector :=
  ⟨"v", ⟨"h", 1, none, none⟩,
    [.unnamed ⟨0x3f800000⟩, .named "x" ⟨0x40000000⟩]⟩

/-- The mixed vector refuses a name, which its second feature has. -/
theorem uniform_unless_read_mixed :
    let f := Feature.named "y" ⟨0⟩
    (mixed.offer f).refusal ≠ none ∧ (mixed.offer f).state = mixed ∧
      (Wire.Format.message.put (.feature mixed)).length < 2 ^ 64 ∧
      ∃ bytes,
        Wire.decode Wire.Format.message bytes = .ok (.feature mixed) := by
  have hrefused : (mixed.offer (.named "y" ⟨0⟩)).refusal ≠ none := by
    decide
  have hlength : (Wire.Format.message.put (.feature mixed)).length < 2 ^ 64 := by
    decide
  rcases uniform_unless_read mixed (.named "y" ⟨0⟩) [] with
    ⟨_, hunchanged, _, _, _, hread⟩
  exact ⟨hrefused, hunchanged hrefused, hlength, hread hlength⟩

theorem mixed_vector_is_read :
    Wire.decode Wire.Format.message (Wire.Format.message.put (.feature mixed)) =
      .ok (.feature mixed) ∧ ¬mixed.Uniform := by
  have hlength : (Wire.Format.message.put (.feature mixed)).length < 2 ^ 64 := by
    decide
  exact ⟨decode_put_feature hlength, by decide⟩

end FeatureVector
end CudaProfile
