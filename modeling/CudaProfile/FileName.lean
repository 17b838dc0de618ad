import CudaProfile.Crc64
import CudaProfile.Error
/-!
# File names with checksums

A file is named by its path and a checksum of its content. The checksum zero is
unknown and agrees with every other.
-/

namespace CudaProfile

structure FileName where
  path : String
  checksum : UInt64
deriving DecidableEq

namespace FileName

def agrees (a b : FileName) : Bool :=
  Path.same a.path b.path &&
    (a.checksum = 0 || b.checksum = 0 || a.checksum = b.checksum)

/-- By path and then by checksum, if both are known. -/
def order (a b : FileName) : Ordering :=
  (Path.order a.path b.path).then
    (if a.checksum = 0 || b.checksum = 0 then .eq
     else compare a.checksum b.checksum)

/-- The checksum of the file that a path leads to. What is not there, or not a
file, has the checksum zero. -/
def checksumOf (working : FileTree) (path : String) : Except Error UInt64 :=
  match working.resolve path with
  | .ok (.file content) => .ok (Crc64.checksum content)
  | .ok (.directory _) => .ok 0
  | .error .notFound => .ok 0
  | .error fault => .error (.unreadable path fault)

def ofPath (working : FileTree) (path : String) : Except Error FileName := do
  return ⟨path, ← checksumOf working path⟩

end FileName
end CudaProfile
