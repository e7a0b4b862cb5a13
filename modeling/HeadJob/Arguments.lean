/-!
The arguments of a launch.

A launch takes the arguments of `nextflow run` with settings of its own among them.  A setting is a
flag with a value, and the value is whatever argument follows.  The other arguments are handed on
in their order, with the name of the run put in before the first of them that begins with a dash.
-/

namespace HeadJob

inductive Flag where
  | name
  | volume
  | image
  | cpus
  | memory
  | config
  /-- A script that is not run. -/
  | prescript
  deriving DecidableEq, Repr

def Flag.ofArgument? : String → Option Flag
  | "-name" => some name
  | "-v" => some volume
  | "-head-image" | "-pod-image" => some image
  | "-head-cpus" => some cpus
  | "-head-memory" => some memory
  | "-c" => some config
  | "-head-prescript" => some prescript
  | _ => none

/-- An argument of the launch: a setting, or one that is handed on. -/
inductive Argument where
  | setting (flag : Flag) (value : String)
  | forwarded (text : String)
  deriving DecidableEq, Repr

structure MissingValue where
  flag : String
  deriving DecidableEq, Repr

def MissingValue.message (e : MissingValue) : String := "missing value for " ++ e.flag

/-- Words that name the launch itself and are not handed on. -/
def commandWords : List String := ["run", "kuberun"]

namespace Argument

/-- Splits arguments into settings and what is handed on. -/
def split : List String → Except MissingValue (List Argument)
  | [] => .ok []
  | [a] =>
    if (Flag.ofArgument? a).isSome then .error ⟨a⟩
    else .ok (if a ∈ commandWords then [] else [forwarded a])
  | a :: b :: rest =>
    match Flag.ofArgument? a with
    | some flag => (split rest).map (setting flag b :: ·)
    | none =>
      (split (b :: rest)).map fun args =>
        if a ∈ commandWords then args else forwarded a :: args

def value? (flag : Flag) : Argument → Option String
  | setting f v => if f = flag then some v else none
  | forwarded _ => none

def forwarded? : Argument → Option String
  | setting .. => none
  | forwarded text => some text

end Argument

/-- What a launch was asked for on the command line. -/
structure Arguments where
  name : String
  /-- What follows `nextflow run`, the name included. -/
  forwarded : List String
  volumes : List String
  image : String
  cpus : String
  memory : String
  configPath : String
  deriving DecidableEq, Repr

namespace Arguments

def defaultImage : String := "cerit.io/nextflow/nextflow:24.10.5"
def defaultCpus : String := "1"
def defaultMemory : String := "8Gi"
def defaultConfigPath : String := "nextflow.config"

def isDashed (argument : String) : Bool := argument.toList.head? == some '-'

/-- Puts the name of the run before the first argument that begins with a dash, or at the end. -/
def withName (name : String) (forwarded : List String) : List String :=
  forwarded.takeWhile (!isDashed ·) ++ ["-name", name] ++ forwarded.dropWhile (!isDashed ·)

/-- The settings of the arguments: the last value of each flag, and all volumes. -/
def ofSplit (freshName : String) (args : List Argument) : Arguments :=
  let values (flag : Flag) : List String := args.filterMap (Argument.value? flag)
  let last (flag : Flag) (default : String) : String := (values flag).getLast?.getD default
  let name := last .name freshName
  { name
    forwarded := withName name (args.filterMap Argument.forwarded?)
    volumes := values .volume
    image := last .image defaultImage
    cpus := last .cpus defaultCpus
    memory := last .memory defaultMemory
    configPath := last .config defaultConfigPath }

/-- Reads arguments.  `freshName` names the run if they do not. -/
def parse (freshName : String) (args : List String) : Except MissingValue Arguments :=
  (Argument.split args).map (ofSplit freshName)

end Arguments
end HeadJob
