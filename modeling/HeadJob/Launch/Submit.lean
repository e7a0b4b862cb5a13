import HeadJob.Cluster.Created
import HeadJob.Launch.Namespace
import HeadJob.Manifest.Head

/-!
A launch in a cluster.

Three requests are sent, each after the reply to the one before: the secret is created, then the job
that mounts it, and then the job is made the owner of the secret, so that the secret goes with it.
Amounts that are refused are refused before anything is sent.  The launch succeeds with the job; that
its secret has no owner does not undo it.
-/

namespace HeadJob

/-- What goes wrong between a launch and the cluster. -/
inductive ClusterError where
  | secretFailed (cause : Cluster.Failure)
  | secretUnnamed
  | jobFailed (job : String) (cause : Cluster.Failure)
  | jobUnnamed
  | jobUnidentified (job : String)
  deriving DecidableEq, Repr

def ClusterError.message : ClusterError → String
  | secretFailed cause => "kubernetes error: creating config secret: " ++ cause.message
  | secretUnnamed => "kubernetes error: created secret has no name"
  | jobFailed job cause => "kubernetes error: creating job '" ++ job ++ "': " ++ cause.message
  | jobUnnamed => "kubernetes error: created job has no name"
  | jobUnidentified job => "kubernetes error: created job '" ++ job ++ "' has no uid"

inductive LaunchError where
  | resources (cause : CpuError)
  | cluster (cause : ClusterError)
  deriving DecidableEq, Repr

def LaunchError.message : LaunchError → String
  | resources cause => cause.message
  | cluster cause => cause.message

namespace Submit

open Cluster (Exchange Request Created ObjectKind)

def launcher : String := "kubernetes"

def ownerOf (job : Created) : Except ClusterError Manifest.OwnerReference :=
  match job.name with
  | none => .error .jobUnnamed
  | some name =>
    match job.uid with
    | none => .error (.jobUnidentified name)
    | some uid => .ok ⟨name, uid⟩

def createSecret (ns : String) (secret : Manifest.Secret) : Request :=
  ⟨.post, Cluster.secretsPath ns, secret.toJson⟩

def createJob (ns : String) (job : Manifest.Job) : Request :=
  ⟨.post, Cluster.jobsPath ns, job.toJson⟩

def setOwner (ns secretName : String) (owner : Manifest.OwnerReference) : Request :=
  ⟨.mergePatch, Cluster.secretPath ns secretName,
    .object [("metadata", .object [("ownerReferences", .array [owner.toJson])])]⟩

/-- Sends the request that creates an object, and goes on with what comes of it. -/
def create {α : Type} (asked : ObjectKind) (r : Request)
    (next : Except Cluster.Failure Created → Exchange α) : Exchange α :=
  .deliver r (fun fault => next (.error (.unsendable fault))) fun reply =>
    next (Created.ofReply asked reply)

/-- The last step: sets the owner, whatever comes of it.  A secret with an empty name cannot be
addressed, and then nothing is sent. -/
def afterJob (ns : String) (spec : LaunchSpec) (secretName : String)
    (created : Except Cluster.Failure Created) : Exchange (Except LaunchError LaunchHandle) :=
  match created with
  | .error cause => .done (.error (.cluster (.jobFailed spec.name cause)))
  | .ok job =>
    match ownerOf job with
    | .error e => .done (.error (.cluster e))
    | .ok owner =>
      let handle : LaunchHandle := { name := spec.name, inNamespace := ns, secretName, launcher }
      if secretName = "" then .done (.ok handle)
      else
        .deliver (setOwner ns secretName owner) (fun _ => .done (.ok handle)) fun _ =>
          .done (.ok handle)

def afterSecret (ns : String) (spec : LaunchSpec)
    (created : Except Cluster.Failure Created) : Exchange (Except LaunchError LaunchHandle) :=
  match created with
  | .error cause => .done (.error (.cluster (.secretFailed cause)))
  | .ok secret =>
    match secret.name with
    | none => .done (.error (.cluster .secretUnnamed))
    | some secretName =>
      match Manifest.headJob spec secretName with
      | .error e => .done (.error (.resources e))
      | .ok job =>
        create .job (createJob ns (job.inNamespace ns)) (afterJob ns spec secretName)

def launch (spec : LaunchSpec) (accountFile : Option ByteArray) :
    Exchange (Except LaunchError LaunchHandle) :=
  match spec.resources.cpuRequest with
  | .error e => .done (.error (.resources e))
  | .ok _ =>
    let ns := chooseNamespace spec.configuredNamespace accountFile
    create .secret (createSecret ns ((Manifest.configSecret spec).inNamespace ns))
      (afterSecret ns spec)

end Submit
end HeadJob
