import CudaProfile.CommandLine.Arguments
import CudaProfile.CommandLine.Report
import CudaProfile.Config
import CudaProfile.FileTree
/-!
# Running commands

What a command prints and how it ends, as a function of its arguments, of the
environment, and of how files are read.
-/

namespace CudaProfile
namespace CommandLine

structure Result where
  exitCode : UInt32
  output : String
  errors : String
deriving DecidableEq

inductive Failure where
  | unreadable (log : String) (fault : FileFault)
  | undecodable (log : String) (error : Error)
  | refused (error : Error)
deriving DecidableEq

def Failure.text : Failure → String
  | unreadable log fault =>
      "Error: Failed to read message log " ++ log ++
        "\n\nCaused by:\n    " ++ fault.text ++ "\n"
  | undecodable log error =>
      "Error: Failed to decode message log " ++ log ++
        "\n\nCaused by:\n    " ++ error.message ++ "\n"
  | refused error => "Error: " ++ error.message ++ "\n"

def Result.good (output : String) : Result :=
  ⟨0, output, ""⟩

def Result.bad (output : String) (failure : Failure) : Result :=
  ⟨1, output, failure.text⟩

def readLog (read : String → Except FileFault Bytes) (log : String) :
    Except Failure (List Message) :=
  match read log with
  | .error fault => .error (.unreadable log fault)
  | .ok bytes =>
      match Wire.decodeLog bytes with
      | .error error => .error (.undecodable log error)
      | .ok messages => .ok messages

/-- Run messages through a pipeline and report on those it sends. What its
stages show comes first. -/
def throughPipeline (stages : List Stage) (messages : List Message)
    (report : List Message → String) : Result :=
  let reply := Pipeline.sendAll stages messages
  let shown := String.join reply.shown
  match reply.refusal with
  | none => .good (shown ++ report reply.messages)
  | some error => .bad shown (.refused error)

def replay (config : Config) (json : Bool) (messages : List Message) :
    Result :=
  throughPipeline (Pipeline.aggregation config.debug) messages fun sent =>
    let summary := Summary.ofMessages messages.length sent
    if json then line (summary.toJson.pretty 0) else summary.text

def features (json : Bool) (messages : List Message) : Result :=
  throughPipeline Pipeline.clustering messages fun sent =>
    let found := vectors sent
    if json then line ((Json.array (found.map vectorJson)).pretty 0)
    else if found.isEmpty then
      warning "No feature vectors; not every thread terminated"
    else String.join (found.map vectorText)

/-- List messages, up to the first blob that cannot be read. -/
def dump : List Message → Result
  | [] => .good ""
  | message :: rest =>
      let text := match message with
        | .data blob =>
            if blob.header.id = Cuda.collectorId then Cuda.Listing.text blob
            else .ok message.kind
        | _ => .ok message.kind
      match text with
      | .error error => .bad "" (.refused error)
      | .ok text =>
          let result := dump rest
          { result with output := line text ++ result.output }

def versionText : String :=
  "cudascope 0.1.0"

def usageText : String :=
  "Usage: cudascope [-v] [--log-json] replay <LOG> [--debug-data] [--json]\n" ++
    "       cudascope [-v] [--log-json] features <LOG> [--json]\n" ++
    "       cudascope [-v] [--log-json] dump <LOG>\n"

def onLog (read : String → Except FileFault Bytes) (log : String)
    (run : List Message → Result) : Result :=
  match readLog read log with
  | .ok messages => run messages
  | .error failure => .bad "" failure

def run (config : Config) (read : String → Except FileFault Bytes)
    (args : List String) : Result :=
  match command? args with
  | none => ⟨2, "", usageText⟩
  | some .version => .good (line versionText)
  | some (.replay log debugData json) =>
      onLog read log (replay ⟨config.debug || debugData⟩ json)
  | some (.features log json) => onLog read log (features json)
  | some (.dump log) => onLog read log dump

end CommandLine
end CudaProfile
