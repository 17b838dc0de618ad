import CudaProfile.Path
/-!
# Reading from a directory

A tree of files and directories, how a path is followed in it, and why a path
may lead nowhere.
-/

namespace CudaProfile

inductive FileFault where
  | notFound
  | notADirectory
  | isADirectory
  | nameTooLong
  | zeroByte
  /-- Any other reason, in the words of the operating system. -/
  | other (text : String)
deriving DecidableEq

def FileFault.text : FileFault → String
  | notFound => "No such file or directory (os error 2)"
  | notADirectory => "Not a directory (os error 20)"
  | isADirectory => "Is a directory (os error 21)"
  | nameTooLong => "File name too long (os error 36)"
  | zeroByte => "file name contained an unexpected NUL byte"
  | other text => text

inductive FileTree where
  | file (content : List UInt8)
  | directory (members : List (String × FileTree))

namespace FileTree

def maxPathBytes : Nat :=
  4095

def maxNameBytes : Nat :=
  255

def root : FileTree :=
  .directory
    [("dev", .directory [("null", .file [])]), ("etc", .directory []),
      ("tmp", .directory []), ("usr", .directory [])]

/-- Follow the parts of a path from the first of the given trees; the others
are the directories around it, innermost first, and `outside` lies around the
outermost one. Nothing can be followed from a file. -/
def follow (outside : FileTree) :
    List String → FileTree → List FileTree → Except FileFault FileTree
  | [], tree, _ => .ok tree
  | _ :: _, .file _, _ => .error .notADirectory
  | part :: rest, .directory members, around =>
      if part = "" || part = "." then
        follow outside rest (.directory members) around
      else if part = ".." then
        match around with
        | [] => follow outside rest outside []
        | outer :: others => follow outside rest outer others
      else if part.utf8ByteSize > maxNameBytes then
        .error .nameTooLong
      else
        match members.find? fun member => member.1 = part with
        | some member =>
            follow outside rest member.2 (.directory members :: around)
        | none => .error .notFound

/-- What a path leads to from a working directory. Nothing is known of the
files outside of it, but the root directory lies around itself. -/
def resolve (working : FileTree) (path : String) : Except FileFault FileTree :=
  if path.toList.contains '\x00' then .error .zeroByte
  else if path.utf8ByteSize > maxPathBytes then .error .nameTooLong
  else if path = "" then .error .notFound
  else if Path.isAbsolute path then follow root (Path.segments path) root []
  else follow (.directory []) (Path.segments path) working []

def read (working : FileTree) (path : String) :
    Except FileFault (List UInt8) :=
  match working.resolve path with
  | .ok (.file content) => .ok content
  | .ok (.directory _) => .error .isADirectory
  | .error fault => .error fault

end FileTree
end CudaProfile
