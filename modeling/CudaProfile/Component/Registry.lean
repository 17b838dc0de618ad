import CudaProfile.Component.Stage
/-!
# The registry of components

Components that can be made by name.
-/

namespace CudaProfile

structure Registry where
  stages : OrderedMap String Stage
deriving DecidableEq

namespace Registry

def empty : Registry :=
  ⟨∅⟩

instance : EmptyCollection Registry :=
  ⟨empty⟩

def register (r : Registry) (name : String) (stage : Stage) : Registry :=
  ⟨r.stages.insert name stage⟩

def add (r : Registry) (stage : Stage) : Registry :=
  r.register stage.name stage

def addAggregation (r : Registry) (debug : Bool) : Registry :=
  (Pipeline.aggregation debug).foldl add r

/-- The registry with the components for clustering; the filter has one
child. -/
def addClustering (r : Registry) : Registry :=
  Pipeline.clustering.foldl add (r.add (.clusteringFilter (.new 1)))

def names (r : Registry) : List String :=
  r.stages.keys

def contains (r : Registry) (name : String) : Bool :=
  r.stages.contains name

def create (r : Registry) (name : String) : Except Error Stage :=
  match r.stages.get? name with
  | some stage => .ok stage
  | none => .error (.unknownComponent name)

end Registry
end CudaProfile
