import CudaProfile.Number.Single
import CudaProfile.Outcome
/-!
# Features

A feature is a number that describes one aspect of a thread. Its name is a byte
string: empty for an unnamed feature, a text, or a number in eight bytes.
-/

namespace CudaProfile

structure Feature where
  name : List UInt8
  value : Single
deriving DecidableEq

namespace Feature

def unnamed (value : Single) : Feature :=
  ⟨[], value⟩

def named (name : String) (value : Single) : Feature :=
  ⟨Utf8.encode name, value⟩

def idBytes (id : UInt64) : List UInt8 :=
  (List.range 8).map fun i => (id >>> UInt64.ofNat (8 * i)).toUInt8

def numbered (id : UInt64) (value : Single) : Feature :=
  ⟨idBytes id, value⟩

def isNamed (f : Feature) : Bool :=
  !f.name.isEmpty

def nameText? (f : Feature) : Option String :=
  if f.isNamed then Utf8.decode? f.name else none

def nameId? (f : Feature) : Option UInt64 :=
  if f.name.length = 8 then
    some (f.name.foldr (fun byte id => byte.toUInt64 + 256 * id) 0)
  else none

end Feature

structure FeatureVector where
  name : String
  thread : ThreadName
  features : List Feature
deriving DecidableEq

namespace FeatureVector

def new (name : String) (thread : ThreadName) : FeatureVector :=
  ⟨name, thread, []⟩

/-- Put a feature at the end. It is refused unless it is named exactly when the
first one is. -/
def offer (v : FeatureVector) (f : Feature) : Outcome FeatureVector :=
  match v.features with
  | [] => .done ⟨v.name, v.thread, [f]⟩
  | first :: rest =>
      if first.isNamed = f.isNamed then
        .done ⟨v.name, v.thread, first :: rest ++ [f]⟩
      else .refused v (.mixedFeatures v.name)

def add (v : FeatureVector) (f : Feature) : Except Error FeatureVector :=
  (v.offer f).result

def addAll (v : FeatureVector) (fs : List Feature) :
    Except Error FeatureVector :=
  fs.foldlM add v

def values (v : FeatureVector) : List Single :=
  v.features.map Feature.value

end FeatureVector
end CudaProfile
