import CudaProfile.FileTree
import CudaProfile.ThreadName
import CudaProfile.Wire.Fault
/-!
# Errors

Every way in which an operation can be refused, by its cause. The words for an
error start with those for its kind.
-/

namespace CudaProfile

inductive ErrorKind where
  | invalidArgument
  | malformed
  | system
  | stateViolation
  | codec
deriving DecidableEq

def ErrorKind.label : ErrorKind → String
  | invalidArgument => "invalid argument: "
  | malformed => "malformed message: "
  | system => "system error: "
  | stateViolation => "state violation: "
  | codec => "codec error: "

inductive Error where
  | emptyBitmap
  | wideBitmap (range : AddressRange)
  | outsideBitmap (address : Address) (range : AddressRange)
  | wideRange (range : AddressRange)
  | complementedSet
  | mixedFeatures (vector : String)
  | unknownComponent (name : String)
  | badBitmap (fault : BitmapFault)
  | undecodable (fault : Wire.Fault)
  | callSiteOutside (callSite : UInt32) (poolSize : Nat)
  | overflowShape (counts pcs counters : Nat)
  | periodicShape (counts counters : Nat)
  | unreadable (path : String) (fault : FileFault)
  | unknownObject (file : String)
  | notLoaded (object : String) (thread : ThreadName)
  /-- A complemented set inside of a value that is to be encoded. -/
  | unencodableSet
deriving DecidableEq

namespace Error

def kind : Error → ErrorKind
  | emptyBitmap | wideBitmap _ | outsideBitmap _ _ | wideRange _
  | complementedSet | mixedFeatures _ | unknownComponent _ => .invalidArgument
  | badBitmap _ | undecodable _ | callSiteOutside _ _ | overflowShape _ _ _
  | periodicShape _ _ => .malformed
  | unreadable _ _ => .system
  | unknownObject _ | notLoaded _ _ => .stateViolation
  | unencodableSet => .codec

def complementedWords : String :=
  "complemented address set cannot be encoded"

def cause : Error → String
  | emptyBitmap => "address bitmap over an empty range"
  | wideBitmap range => "address bitmap over " ++ exceedsBitmap range
  | outsideBitmap address range =>
      "address " ++ address.text ++ " outside bitmap range " ++ range.text
  | wideRange range => "address range " ++ exceedsBitmap range
  | complementedSet => complementedWords
  | mixedFeatures vector =>
      "feature vector " ++ vector ++ " mixes named and unnamed features"
  | unknownComponent name => "no component named " ++ name
  | badBitmap fault => fault.message
  | undecodable fault => "undecodable record: " ++ fault.message
  | callSiteOutside callSite poolSize =>
      "call site " ++ toString callSite ++ " outside a stack trace pool of " ++
        toString poolSize
  | overflowShape counts pcs counters =>
      toString counts ++ " overflow counts for " ++ toString pcs ++
        " PCs and " ++ toString counters ++ " counters"
  | periodicShape counts counters =>
      "periodic sample has " ++ toString counts ++ " counts for " ++
        toString counters ++ " counters"
  | unreadable path fault => "stat " ++ path ++ ": " ++ fault.text
  | unknownObject file => "unload of unknown linked object " ++ file
  | notLoaded object thread =>
      object ++ " is not loaded in thread " ++ thread.text
  | unencodableSet =>
      ErrorKind.invalidArgument.label ++ complementedWords

def message (e : Error) : String :=
  e.kind.label ++ e.cause

end Error
end CudaProfile
