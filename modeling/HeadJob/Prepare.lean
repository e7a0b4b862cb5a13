import HeadJob.Arguments
import HeadJob.Config.Document
import HeadJob.Launch.Environment
import HeadJob.Launch.Preview
import HeadJob.Launch.Submit

/-!
From arguments and a configuration file to a head job.
-/

namespace HeadJob

/-- What a launch sees of the system around it. -/
structure Surroundings where
  fileAt : String → Except ReadError ByteArray
  directory : String
  environment : List (String × String)
  /-- The namespace file of the service account, in a container. -/
  accountFile : Option ByteArray := none

inductive LaunchFailure where
  | arguments (cause : MissingValue)
  | load (path : String) (cause : ConfigError)
  | resolve (path : String) (cause : ConfigError)
  | connect
  | launch (cause : LaunchError)
  deriving DecidableEq, Repr

namespace LaunchFailure

/-- What failed, followed by its causes down to the first. -/
def chain : LaunchFailure → List String
  | arguments cause => [cause.message]
  | load path cause => ("Failed to load config: " ++ path) :: cause.chain
  | resolve path cause => ("Failed to resolve config: " ++ path) :: cause.chain
  | connect => ["Failed to connect to Kubernetes"]
  | launch cause => ["Failed to launch head job", cause.message]

/-- A cause in a report: further lines of it are indented like the first. -/
def indented (first later : String) (cause : String) : String :=
  first ++ String.ofList (Text.replaceAll ['\n'] ('\n' :: later.toList) cause.toList)

/-- The failure as it is reported.  Causes are numbered if there are two or more. -/
def report (f : LaunchFailure) : String :=
  match f.chain with
  | [] => ""
  | [outer] => "Error: " ++ outer ++ "\n"
  | [outer, cause] =>
    "Error: " ++ outer ++ "\n\nCaused by:\n" ++ indented "    " "    " cause ++ "\n"
  | outer :: causes =>
    let numbered := causes.mapIdx fun i cause =>
      indented ("    " ++ toString i ++ ": ") "       " cause
    "Error: " ++ outer ++ "\n\nCaused by:\n" ++ "\n".intercalate numbered ++ "\n"

end LaunchFailure

/-- Reads the configuration, puts in the volumes of the command line and resolves the placeholders. -/
def Arguments.document (args : Arguments) (around : Surroundings) :
    Except LaunchFailure Document :=
  match Document.ofFile Document.clusterBlock (around.fileAt args.configPath) with
  | .error e => .error (.load args.configPath e)
  | .ok document =>
    match (document.applyVolumes (args.volumes.map String.toList)).resolve with
    | .error e => .error (.resolve args.configPath e)
    | .ok document => .ok document

/-- The head job for a configuration.  Without a launch directory it starts where the launch was
started. -/
def Arguments.spec (args : Arguments) (document : Document) (around : Surroundings) :
    LaunchSpec where
  name := args.name
  configuredNamespace := document.settings.namespace?.map String.ofList
  image := args.image
  arguments := args.forwarded
  resources := ⟨args.cpus, args.memory⟩
  environment := Environment.ofProcess around.environment
  volumes := document.volumes
  launchDir := (document.settings.launchDir?.map String.ofList).getD around.directory
  configText := String.ofList document.render

def prepare (args : Arguments) (around : Surroundings) : Except LaunchFailure LaunchSpec :=
  (args.document around).map fun document => args.spec document around

/-- Prepares a head job and launches it, or shows it: what is printed.  No cluster is at hand, so
only showing can succeed. -/
def launch (args : Arguments) (dryRun : Bool) (around : Surroundings) :
    Except LaunchFailure String :=
  match prepare args around with
  | .error e => .error e
  | .ok spec =>
    if dryRun then
      match Preview.launch spec around.accountFile with
      | .error e => .error (.launch (.resources e))
      | .ok (text, _) => .ok text
    else .error .connect

end HeadJob
