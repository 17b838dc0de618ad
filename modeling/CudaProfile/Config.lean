import CudaProfile.Text.Json
/-!
# Configuration of the data aggregator
-/

namespace CudaProfile

structure Config where
  /-- Whether to show every CUDA blob that is received or sent. -/
  debug : Bool
deriving DecidableEq

namespace Config

def debugVariable : String :=
  "CBTF_DEBUG_DATA_AGGREGATOR_FOR_CUDA"

/-- The configuration for a value of that variable: any value asks. -/
def ofEnvironment (value : Option String) : Config :=
  ⟨value.isSome⟩

def toJson (c : Config) : Json :=
  .object [("debug", .bool c.debug)]

end Config
end CudaProfile
