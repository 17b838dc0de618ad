import CudaProfile.Component.Basic
/-!
# Inner nodes of the clustering tree

A filter sends one address buffer when all of its children have sent theirs,
and tells that the threads have finished when all children have told so. All
else passes.
-/

namespace CudaProfile

structure ClusteringFilter where
  fanIn : Nat
  buffer : AddressBuffer
  /-- The number of buffers in the present one. -/
  reported : Nat
  finished : Nat
  /-- Whether all of those have finished well. -/
  allFinished : Bool
deriving DecidableEq

namespace ClusteringFilter

def new (fanIn : Nat) : ClusteringFilter :=
  ⟨max fanIn 1, .empty, 0, 0, true⟩

def merge (s : ClusteringFilter) (buffer : AddressBuffer) :
    Reply ClusteringFilter :=
  let merged := s.buffer.merge buffer
  if s.reported + 1 = s.fanIn then
    .send { s with buffer := .empty, reported := 0 } [.addressBuffer merged]
  else .quiet { s with buffer := merged, reported := s.reported + 1 }

def finish (s : ClusteringFilter) (finished : Bool) :
    Reply ClusteringFilter :=
  let all := s.allFinished && finished
  if s.finished + 1 = s.fanIn then
    .send { s with finished := 0, allFinished := true } [.threadsFinished all]
  else .quiet { s with finished := s.finished + 1, allFinished := all }

instance : Component ClusteringFilter where
  name _ := "ClusteringFilter"
  accepts _
    | .addressBuffer _ | .threadsFinished _ => true
    | _ => false
  handle s
    | .addressBuffer buffer => s.merge buffer
    | .threadsFinished finished => s.finish finished
    | other => .send s [other]

end ClusteringFilter
end CudaProfile
