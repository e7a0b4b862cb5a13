import HeadJob.CommandLine
import HeadJob.RunName

/-!
The program.
-/

namespace HeadJob

/-- The outcome of reading a file, with the system's number for what went wrong. -/
def readErrorOf : IO.Error → ReadError
  | .noFileOrDirectory .. => .notFound
  | .inappropriateType _ code detail => .refused detail code.toNat
  | .permissionDenied _ code _ => .refused "Permission denied" code.toNat
  | .otherError code detail => .refused detail code.toNat
  | e => .refused (toString e) 5

def readBytes (path : String) : IO (Except ReadError ByteArray) := do
  try
    return .ok (← IO.FS.readBinFile path)
  catch e =>
    return .error (readErrorOf e)

/-- The environment of the process, which the system lists with a zero after each. -/
def processEnvironment : IO (List (String × String)) := do
  match ← readBytes "/proc/self/environ" with
  | .error _ => return []
  | .ok bytes =>
    let entries := ((String.fromUTF8? bytes).getD "").toList.splitOn '\x00'
    return entries.filterMap fun entry =>
      match entry.dropWhile (· ≠ '=') with
      | [] => none
      | _ :: value => some (String.ofList (entry.takeWhile (· ≠ '=')), String.ofList value)

/-- The file that the command line makes the program read. -/
def configPathOf (args : List String) (environment : List (String × String)) : String :=
  match CommandLine.request args (environment.lookup CommandLine.dryRunVariable) with
  | .ok (.launch _ args) =>
    match Arguments.parse "" args with
    | .ok args => args.configPath
    | .error _ => ""
  | _ => ""

end HeadJob

open HeadJob in
def main (args : List String) : IO UInt32 := do
  let environment ← processEnvironment
  let file ← readBytes (configPathOf args environment)
  let account ← readBytes serviceAccountNamespaceFile
  let name := RunName.ofNumbers (← IO.rand 0 999983) (← IO.rand 0 999983)
  let around : Surroundings :=
    { fileAt := fun _ => file
      directory := (← IO.currentDir).toString
      environment
      accountFile := account.toOption }
  let outcome := CommandLine.run name args around
  (← IO.getStdout).putStr outcome.stdout
  (← IO.getStderr).putStr outcome.stderr
  return outcome.code.toUInt32
