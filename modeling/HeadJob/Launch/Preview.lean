import HeadJob.Launch.Namespace
import HeadJob.Manifest.Head

/-!
A launch that shows the objects it would create, and creates none.
-/

namespace HeadJob
namespace Preview

def launcher : String := "dry-run"

def namespaceOf (spec : LaunchSpec) (accountFile : Option ByteArray) : String :=
  chooseNamespace spec.configuredNamespace accountFile

/-- The secret and the job.  The secret has no name yet, so the job names what its name begins
with. -/
def objects (spec : LaunchSpec) (accountFile : Option ByteArray) :
    Except CpuError (Manifest.Secret × Manifest.Job) :=
  let ns := namespaceOf spec accountFile
  (Manifest.headJob spec Manifest.configSecretStem).map fun job =>
    ((Manifest.configSecret spec).inNamespace ns, job.inNamespace ns)

/-- The objects as text, each on lines of its own. -/
def render (spec : LaunchSpec) (accountFile : Option ByteArray) : Except CpuError String :=
  (objects spec accountFile).map fun (secret, job) =>
    secret.toJson.pretty ++ "\n" ++ job.toJson.pretty

/-- What is printed, and the handle of the job that was shown. -/
def launch (spec : LaunchSpec) (accountFile : Option ByteArray) :
    Except CpuError (String × LaunchHandle) :=
  (render spec accountFile).map fun text =>
    (text ++ "\n",
      { name := spec.name
        inNamespace := namespaceOf spec accountFile
        secretName := Manifest.configSecretStem
        launcher })

end Preview
end HeadJob
