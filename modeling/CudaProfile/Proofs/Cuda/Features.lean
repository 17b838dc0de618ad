import CudaProfile.Cuda.Features
import CudaProfile.Proofs.Feature
/-!
# Feature vectors of threads

All features in a vector are named, or none is. Those of a thread have six
names, so a thread always has a vector, with or without data.
-/

namespace CudaProfile
namespace FeatureVector

theorem add_named {v : FeatureVector} {f : Feature}
    (hv : ∀ g ∈ v.features, g.isNamed = true) (hf : f.isNamed = true) :
    v.add f = .ok { v with features := v.features ++ [f] } := by
  have hfits : Fits v.features f := by
    intro first hfirst
    rw [hv first (List.mem_of_head? hfirst), hf]
  unfold add
  rw [offer_of_fits hfits]
  rfl

theorem addAll_named {v : FeatureVector} {fs : List Feature}
    (hv : ∀ f ∈ v.features, f.isNamed = true)
    (hfs : ∀ f ∈ fs, f.isNamed = true) :
    v.addAll fs = .ok { v with features := v.features ++ fs } := by
  induction fs generalizing v with
  | nil =>
      rw [List.append_nil]
      rfl
  | cons f rest ih =>
      rcases List.forall_mem_cons.mp hfs with ⟨hf, hrest⟩
      have hmore : ∀ g ∈ v.features ++ [f], g.isNamed = true := by
        intro g hg
        rcases List.mem_append.mp hg with hg | hg
        · exact hv g hg
        · rw [List.mem_singleton.mp hg]
          exact hf
      unfold addAll
      rw [List.foldlM_cons, add_named hv hf]
      change addAll { v with features := v.features ++ [f] } rest = _
      rw [ih hmore hrest]
      simp only [List.append_assoc, List.singleton_append]

end FeatureVector

namespace Cuda
namespace Features

def names : List String :=
  ["kernel_count", "kernel_time", "transfer_count", "transfer_bytes",
    "transfer_time", "mean_kernel_time"]

theorem isNamed_of_name {f : Feature} (h : f.name ≠ []) : f.isNamed = true := by
  unfold Feature.isNamed
  rw [Bool.not_eq_true', List.isEmpty_eq_false_iff]
  exact h

theorem exists_ofThread (p : PerformanceData) (thread : ThreadName) :
    ∃ v, ofThread p thread = .ok v ∧ v.thread = thread ∧
      v.features.map Feature.name = names.map Utf8.encode := by
  have hnames : [] ∉ names.map Utf8.encode := by
    decide +kernel
  unfold ofThread
  simp only
  rw [FeatureVector.addAll_named]
  · exact ⟨_, rfl, rfl, rfl⟩
  · intro f hf
    cases hf
  · intro f hf
    apply isNamed_of_name
    intro hempty
    apply hnames
    rw [← hempty]
    have hmem := List.mem_map_of_mem (f := Feature.name) hf
    exact hmem

end Features
end Cuda
end CudaProfile
