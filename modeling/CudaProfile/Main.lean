import CudaProfile.CommandLine.Run
/-!
# The command line program

Reads the environment and the log, and prints what running the command gives.
-/

namespace CudaProfile
namespace CommandLine

/-- The reason for which the operating system did not read a file. The number
of a fault may come with its sign changed. -/
def faultOf : IO.Error → FileFault
  | .noFileOrDirectory .. => .notFound
  | .inappropriateType _ number text =>
      if number = 20 || -number = 20 then .notADirectory
      else if number = 21 || -number = 21 then .isADirectory
      else .other text
  | .invalidArgument _ number text =>
      if number = 36 || -number = 36 then .nameTooLong else .other text
  | fault => .other (toString fault)

def readBytes (path : String) : IO (Except FileFault Bytes) := do
  try
    return .ok (← IO.FS.readBinFile path).toList
  catch fault =>
    return .error (faultOf fault)

end CommandLine
end CudaProfile

open CudaProfile in
def main (args : List String) : IO UInt32 := do
  let config := Config.ofEnvironment (← IO.getEnv Config.debugVariable)
  let content ← match (CommandLine.command? args).bind fun c => c.log? with
    | some log => CommandLine.readBytes log
    | none => pure (.error .notFound)
  let result := CommandLine.run config (fun _ => content) args
  IO.print result.output
  IO.eprint result.errors
  return result.exitCode
