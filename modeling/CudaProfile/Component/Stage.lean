import CudaProfile.Component.ClusteringFilter
import CudaProfile.Component.ClusteringLeaf
import CudaProfile.Component.DataAggregator
import CudaProfile.Component.FeatureGenerator
import CudaProfile.Component.Pipeline
import CudaProfile.Component.StateManager
/-!
# The stages of pipelines

Any of the components, and the usual pipelines of them.
-/

namespace CudaProfile

inductive Stage where
  | stateManager (state : StateManager)
  | dataAggregator (state : DataAggregator)
  | addressAggregator (state : AddressAggregator)
  | clusteringLeaf (state : ClusteringLeaf)
  | clusteringFilter (state : ClusteringFilter)
  | featureGenerator (state : FeatureGenerator)
deriving DecidableEq

namespace Stage

def name : Stage → String
  | stateManager s => Component.name s
  | dataAggregator s => Component.name s
  | addressAggregator s => Component.name s
  | clusteringLeaf s => Component.name s
  | clusteringFilter s => Component.name s
  | featureGenerator s => Component.name s

def accepts (stage : Stage) (message : Message) : Bool :=
  match stage with
  | stateManager s => Component.accepts s message
  | dataAggregator s => Component.accepts s message
  | addressAggregator s => Component.accepts s message
  | clusteringLeaf s => Component.accepts s message
  | clusteringFilter s => Component.accepts s message
  | featureGenerator s => Component.accepts s message

def handle (stage : Stage) (message : Message) : Reply Stage :=
  match stage with
  | stateManager s => (Component.handle s message).map stateManager
  | dataAggregator s => (Component.handle s message).map dataAggregator
  | addressAggregator s => (Component.handle s message).map addressAggregator
  | clusteringLeaf s => (Component.handle s message).map clusteringLeaf
  | clusteringFilter s => (Component.handle s message).map clusteringFilter
  | featureGenerator s => (Component.handle s message).map featureGenerator

instance : Component Stage :=
  ⟨name, accepts, handle⟩

end Stage

namespace Pipeline

def aggregation (debug : Bool) : List Stage :=
  [.stateManager .empty, .dataAggregator (.new debug),
    .addressAggregator .empty]

def clustering : List Stage :=
  [.clusteringLeaf .empty, .featureGenerator .empty]

end Pipeline
end CudaProfile
