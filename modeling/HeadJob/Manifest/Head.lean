import HeadJob.Launch.Script
import HeadJob.Launch.Spec
import HeadJob.Manifest.Object

/-!
The objects of a head job: the secret with its configuration, and the job itself.
-/

namespace HeadJob
namespace Manifest

/-- What the name of the secret begins with. -/
def configSecretStem : String := "nf-config-"

/-- The name of the pod's volume that holds the secret. -/
def configVolumeName : String := "nextflow-config"

def headUser : Nat := 1000

/-! ## The secret -/

/-- The secret with the start script and the configuration.  The server completes its name. -/
def configSecret (spec : LaunchSpec) : Secret where
  metadata := { generateName := some configSecretStem }
  type := "Opaque"
  data := [("init.sh", initScript spec.launchDir), ("nextflow.config", spec.configText)]

/-! ## The job -/

/-- The limits that were given; memory is requested in full and half of the processors. -/
def requirements (r : Resources) : Except CpuError ResourceRequirements :=
  r.cpuRequest.map fun request =>
    { limits := [("cpu", r.cpus), ("memory", r.memory)]
      requests := [("cpu", request), ("memory", r.memory)] }

/-- The name of the volume for the claim at position `i`. -/
def claimVolumeName (i : Nat) : String := "vol-" ++ toString i

/-- The claims as volumes of a pod, then the secret. -/
def podVolumes (volumes : List Volume) (secretName : String) : List PodVolume :=
  volumes.mapIdx (fun i v => ⟨claimVolumeName i, .claim (String.ofList v.claim) false⟩) ++
    [⟨configVolumeName, .secret secretName⟩]

/-- Where the claims are mounted, then the secret, which is mounted to be read only. -/
def volumeMounts (volumes : List Volume) : List VolumeMount :=
  volumes.mapIdx (fun i v =>
      { name := claimVolumeName i, mountPath := String.ofList v.path : VolumeMount }) ++
    [{ name := configVolumeName, mountPath := configMountPath, readOnly := some true }]

def Container.addMounts (c : Container) (mounts : List VolumeMount) : Container :=
  { c with mounts := some (c.mounts.getD [] ++ mounts) }

/-- Adds claims and the secret to a pod, after the volumes that it has.  Only the first container
mounts them. -/
def PodSpec.attach (p : PodSpec) (volumes : List Volume) (secretName : String) : PodSpec :=
  { p with
    volumes := some (p.volumes.getD [] ++ podVolumes volumes secretName)
    containers := p.containers.modifyHead (·.addMounts (volumeMounts volumes)) }

/-- The container that runs Nextflow, before anything is mounted. -/
def headContainer (spec : LaunchSpec) (resources : ResourceRequirements) : Container where
  name := spec.name
  image := some spec.image
  command := some (headCommand spec.arguments)
  environment := some spec.environment
  resources := some resources
  security := some
    { allowPrivilegeEscalation := false, droppedCapabilities := ["ALL"], runAsUser := headUser }

def headPod (container : Container) : PodSpec where
  containers := [container]
  restartPolicy := some "Never"
  security := some
    { fsGroupChangePolicy := "OnRootMismatch"
      runAsNonRoot := true
      seccompProfile := "RuntimeDefault" }

/-- The head job, which mounts the secret of this name. -/
def headJob (spec : LaunchSpec) (secretName : String) : Except CpuError Job :=
  (requirements spec.resources).map fun resources =>
    { metadata :=
        { name := some spec.name, labels := [("app", "nextflow"), ("runName", spec.name)] }
      podMetadata := { labels := [("job-name", spec.name)] }
      pod := (headPod (headContainer spec resources)).attach spec.volumes secretName }

/-! ## Placing in a namespace -/

def Secret.inNamespace (s : Secret) (ns : String) : Secret :=
  { s with metadata := { s.metadata with inNamespace := some ns } }

def Job.inNamespace (j : Job) (ns : String) : Job :=
  { j with metadata := { j.metadata with inNamespace := some ns } }

end Manifest
end HeadJob
