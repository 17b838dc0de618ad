/-!
# Arguments of the command line

A command with its log and its options. Options that hold for every command may
stand before the command or after it, and count apart in each place.
-/

namespace CudaProfile
namespace CommandLine

inductive Command where
  /-- Run a log through the aggregation pipeline. -/
  | replay (log : String) (debugData : Bool) (json : Bool)
  /-- Compute the feature vectors of the threads of a log. -/
  | features (log : String) (json : Bool)
  /-- List the CUDA blobs of a log. -/
  | dump (log : String)
  | version
deriving DecidableEq

def Command.log? : Command → Option String
  | replay log _ _ => some log
  | features log _ => some log
  | dump log => some log
  | version => none

/-- Whether an argument is an option. A single hyphen is none, and two hyphens
end the options. -/
def isOption (arg : String) : Bool :=
  arg.toList.head? = some '-' && arg ≠ "-" && arg ≠ "--"

def longName : Char → String
  | 'v' => "--verbose"
  | 'V' => "--version"
  | letter => String.ofList ['-', letter]

def longNames (option : String) : List String :=
  match option.toList with
  | '-' :: '-' :: _ => [option]
  | _ :: letters => letters.map longName
  | [] => []

def split : List String → List String × List String
  | [] => ([], [])
  | arg :: rest =>
      if arg = "--" then ([], rest)
      else
        let (options, words) := split rest
        if isOption arg then (longNames arg ++ options, words)
        else (options, arg :: words)

def allowed (names options : List String) : Bool :=
  options.all (fun option => option ∈ names) &&
    options.length = options.eraseDups.length

def commonOptions : List String :=
  ["--verbose", "--log-json"]

def named? (name : String) (args : List String) : Option Command :=
  let (options, words) := split args
  let within (own : List String) (command : Command) : Option Command :=
    if allowed (own ++ commonOptions) options then some command else none
  match words with
  | [log] =>
      if log = "" then none
      else if name = "replay" then
        within ["--debug-data", "--json"]
          (.replay log (options.contains "--debug-data")
            (options.contains "--json"))
      else if name = "features" then
        within ["--json"] (.features log (options.contains "--json"))
      else if name = "dump" then within [] (.dump log)
      else none
  | _ => none

/-- The command of the arguments, if they make sense. Nothing after a question
for the version matters. -/
def command? (args : List String) : Option Command :=
  let (front, rest) := args.span isOption
  let options := front.flatMap longNames
  let before := options.takeWhile fun option => option ≠ "--version"
  if !allowed commonOptions before then none
  else if before.length < options.length then some .version
  else
    match rest with
    | name :: args => named? name args
    | [] => none

end CommandLine
end CudaProfile
