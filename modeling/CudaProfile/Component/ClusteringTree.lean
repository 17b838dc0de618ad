import CudaProfile.Component.Stage
/-!
# Trees of pipelines

Pipelines side by side below one filter, which merges what they send.
-/

namespace CudaProfile

structure ClusteringTree where
  leaves : List (List Stage)
  filter : ClusteringFilter
deriving DecidableEq

namespace ClusteringTree

def new (fanIn leaves : Nat) (stages : List Stage) : ClusteringTree :=
  ⟨List.replicate leaves stages, .new fanIn⟩

/-- Send a message to one of the pipelines. Tells what the pipeline sends, and
how the filter answers. -/
def send (t : ClusteringTree) (leaf : Nat) (message : Message) :
    List Message × Reply ClusteringTree :=
  let sent := Pipeline.send (t.leaves[leaf]?.getD []) message
  let leaves := t.leaves.set leaf sent.state
  let merged := Pipeline.deliver t.filter sent.messages
  (sent.messages,
    ⟨⟨leaves, merged.state⟩, merged.messages, sent.shown ++ merged.shown,
      sent.refusal.or merged.refusal⟩)

end ClusteringTree
end CudaProfile
