import HeadJob.Prepare
import HeadJob.Terminal.Styled

/-!
The command line of the program.

The program's own options stand before the first argument of the launch; from that one on, every
argument belongs to the launch.
-/

namespace HeadJob
namespace CommandLine

def versionText : String := "nfkube 0.1.0\n"

def helpText : String :=
  "Launch a Nextflow head job on Kubernetes\n\n" ++
  "Usage: nfkube [OPTIONS] [ARGS]...\n\n" ++
  "Arguments:\n" ++
  "  [ARGS]...  Nextflow-style arguments, e.g. `run hello -v pvc:/data -head-cpus 2`\n\n" ++
  "Options:\n" ++
  "      --dry-run  Print the secret and job manifests instead of creating them [env: " ++
    "NFKUBE_DRY_RUN=]\n" ++
  "  -h, --help     Print help\n" ++
  "  -V, --version  Print version\n"

/-- The variable that asks for a dry run when the option does not. -/
def dryRunVariable : String := "NFKUBE_DRY_RUN"

inductive Misuse where
  | repeated (option : String)
  /-- A value for an option that takes none. -/
  | unexpectedValue (option value : String)
  | invalidValue (option value : String)
  deriving DecidableEq, Repr

def Misuse.message (misuse : Misuse) : StyledText :=
  (.failure, "error:") ::
    match misuse with
    | repeated option =>
      [(.plain, " the argument '"), (.invalid, option),
        (.plain, "' cannot be used multiple times")]
    | unexpectedValue option value =>
      [(.plain, " unexpected value '"), (.invalid, value), (.plain, "' for '"),
        (.literal, option), (.plain, "' found; no more were expected")]
    | invalidValue option value =>
      if value = "" then
        [(.plain, " a value is required for '"), (.invalid, option),
          (.plain, "' but none was supplied")]
      else
        [(.plain, " invalid value '"), (.invalid, value), (.plain, "' for '"),
          (.literal, option), (.plain, "'")]

inductive Request where
  | help
  | version
  | launch (dryRun : Bool) (args : List String)
  deriving DecidableEq, Repr

/-- The value that is attached to an option with an equals sign. -/
def attached? (option argument : String) : Option String :=
  (Text.dropPrefix? (option.toList ++ ['=']) argument.toList).map String.ofList

/-- What a group of one-letter options asks for.  The first letter decides, and a group with any
other letter is no option. -/
def letters? (argument : String) : Option Request :=
  match argument.toList with
  | '-' :: c :: cs =>
    if (c :: cs).all fun c => c == 'h' || c == 'V' then
      some (if c = 'V' then .version else .help)
    else none
  | _ => none

/-- Reads the options.  `dryRun` tells whether it was asked for before. -/
def options (dryRun : Bool) : List String → Except Misuse Request
  | [] => .ok (.launch dryRun [])
  | a :: rest =>
    if a = "--" then .ok (.launch dryRun rest)
    else if a = "--dry-run" then
      if dryRun then .error (.repeated a) else options true rest
    else if a = "--version" then .ok .version
    else if a = "--help" then .ok .help
    else
      match ["--dry-run", "--version", "--help"].findSome? fun option =>
        (attached? option a).map (Misuse.unexpectedValue option) with
      | some misuse => .error misuse
      | none => .ok ((letters? a).getD (.launch dryRun (a :: rest)))

/-- Reads the command line.  The variable is looked at only where the option is not given. -/
def request (args : List String) (setting : Option String) : Except Misuse Request :=
  match options false args, setting with
  | .ok (.launch false args), some value =>
    if value = "true" then .ok (.launch true args)
    else if value = "false" then .ok (.launch false args)
    else .error (.invalidValue "--dry-run" value)
  | result, _ => result

inductive Outcome where
  | printed (text : String)
  | failed (cause : LaunchFailure)
  /-- The message is written as the environment wants it. -/
  | misused (cause : Misuse) (environment : List (String × String))
  deriving DecidableEq, Repr

namespace Outcome

def code : Outcome → Nat
  | printed _ => 0
  | failed _ => 1
  | misused _ _ => 2

def stdout : Outcome → String
  | printed text => text
  | _ => ""

def stderr : Outcome → String
  | printed _ => ""
  | failed cause => cause.report
  | misused cause environment => cause.message.output environment ++ "\n"

end Outcome

/-- Runs the program.  `freshName` names a run that is given no name. -/
def run (freshName : String) (args : List String) (around : Surroundings) : Outcome :=
  match request args (around.environment.lookup dryRunVariable) with
  | .error misuse => .misused misuse around.environment
  | .ok .help => .printed helpText
  | .ok .version => .printed versionText
  | .ok (.launch dryRun args) =>
    match Arguments.parse freshName args with
    | .error e => .failed (.arguments e)
    | .ok args =>
      match launch args dryRun around with
      | .error e => .failed e
      | .ok text => .printed text

end CommandLine
end HeadJob
