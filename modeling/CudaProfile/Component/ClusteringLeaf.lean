import CudaProfile.Component.Basic
import CudaProfile.Component.ThreadTracker
/-!
# Leaves of the clustering tree

A leaf waits for the last of its threads to terminate and then asks for the
observed addresses, and for the data and the features of every thread.
-/

namespace CudaProfile

structure ClusteringLeaf where
  tracker : ThreadTracker
deriving DecidableEq

namespace ClusteringLeaf

def empty : ClusteringLeaf :=
  ⟨∅⟩

def terminalMessages (s : ClusteringLeaf) : List Message :=
  [.emitAddressBuffer true] ++
    s.tracker.threads.keys.flatMap
      (fun thread => [.emitData thread, .emitFeatures thread]) ++
    [.threadsFinished true]

instance : Component ClusteringLeaf where
  name _ := "ClusteringLeaf"
  accepts _
    | .attachedToThreads _ | .threadsStateChanged _ => true
    | _ => false
  handle s
    | .attachedToThreads r => .quiet ⟨s.tracker.attachAll r.threads⟩
    | .threadsStateChanged r =>
        let (tracker, isLast) := s.tracker.update r
        let s : ClusteringLeaf := ⟨tracker⟩
        if isLast then .send s s.terminalMessages else .quiet s
    | _ => .quiet s

end ClusteringLeaf
end CudaProfile
