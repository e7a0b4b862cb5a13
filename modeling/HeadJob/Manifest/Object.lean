import HeadJob.Json.Basic
import HeadJob.Text.Base64

/-!
The Kubernetes objects that a launch deals in, with the fields that it sets.

An object is written with its fields in the order of their names (the kind and its version come
first), and a field that is not set is left out.
-/

namespace HeadJob
namespace Manifest

/-- What every object says about itself. -/
structure Metadata where
  /-- What a name that the server makes up begins with. -/
  generateName : Option String := none
  labels : List (String × String) := []
  name : Option String := none
  inNamespace : Option String := none
  deriving DecidableEq, Repr

/-- Names and texts as the members of an object. -/
def strings (entries : List (String × String)) : Json :=
  .object (entries.map fun (name, text) => (name, .string text))

def Metadata.toJson (m : Metadata) : Json :=
  .ofMembers
    [("generateName", m.generateName.map .string),
     ("labels", if m.labels.isEmpty then none else some (strings m.labels)),
     ("name", m.name.map .string),
     ("namespace", m.inNamespace.map .string)]

/-! ## Secrets -/

structure Secret where
  metadata : Metadata
  type : String
  /-- Names and texts.  The texts are written in base 64. -/
  data : List (String × String)
  deriving DecidableEq, Repr

def Secret.toJson (s : Secret) : Json :=
  .object
    [("apiVersion", .string "v1"),
     ("kind", .string "Secret"),
     ("data", strings (s.data.map fun (name, text) => (name, Base64.ofString text))),
     ("metadata", s.metadata.toJson),
     ("type", .string s.type)]

/-! ## Pods -/

/-- A volume in a container's file system. -/
structure VolumeMount where
  name : String
  mountPath : String
  readOnly : Option Bool := none
  deriving DecidableEq, Repr

def VolumeMount.toJson (m : VolumeMount) : Json :=
  .ofMembers
    [("mountPath", some (.string m.mountPath)),
     ("name", some (.string m.name)),
     ("readOnly", m.readOnly.map .bool)]

inductive VolumeSource where
  | claim (name : String) (readOnly : Bool)
  | secret (name : String)
  deriving DecidableEq, Repr

structure PodVolume where
  name : String
  source : VolumeSource
  deriving DecidableEq, Repr

def PodVolume.toJson (v : PodVolume) : Json :=
  .object <| ("name", .string v.name) ::
    match v.source with
    | .claim name readOnly =>
      [("persistentVolumeClaim",
        .object [("claimName", .string name), ("readOnly", .bool readOnly)])]
    | .secret name => [("secret", .object [("secretName", .string name)])]

/-- What a container may use and what it is promised. -/
structure ResourceRequirements where
  limits : List (String × String)
  requests : List (String × String)
  deriving DecidableEq, Repr

def ResourceRequirements.toJson (r : ResourceRequirements) : Json :=
  .object [("limits", strings r.limits), ("requests", strings r.requests)]

structure SecurityContext where
  allowPrivilegeEscalation : Bool
  droppedCapabilities : List String
  runAsUser : Nat
  deriving DecidableEq, Repr

def SecurityContext.toJson (c : SecurityContext) : Json :=
  .object
    [("allowPrivilegeEscalation", .bool c.allowPrivilegeEscalation),
     ("capabilities", .object [("drop", .ofStrings c.droppedCapabilities)]),
     ("runAsUser", .ofNat c.runAsUser)]

structure Container where
  name : String
  command : Option (List String) := none
  environment : Option (List (String × String)) := none
  image : Option String := none
  resources : Option ResourceRequirements := none
  security : Option SecurityContext := none
  mounts : Option (List VolumeMount) := none
  deriving DecidableEq, Repr

def Container.toJson (c : Container) : Json :=
  .ofMembers
    [("command", c.command.map .ofStrings),
     ("env", c.environment.map fun vars => .array (vars.map fun (name, value) =>
       .object [("name", .string name), ("value", .string value)])),
     ("image", c.image.map .string),
     ("name", some (.string c.name)),
     ("resources", c.resources.map (·.toJson)),
     ("securityContext", c.security.map (·.toJson)),
     ("volumeMounts", c.mounts.map fun mounts => .array (mounts.map (·.toJson)))]

structure PodSecurityContext where
  fsGroupChangePolicy : String
  runAsNonRoot : Bool
  seccompProfile : String
  deriving DecidableEq, Repr

def PodSecurityContext.toJson (c : PodSecurityContext) : Json :=
  .object
    [("fsGroupChangePolicy", .string c.fsGroupChangePolicy),
     ("runAsNonRoot", .bool c.runAsNonRoot),
     ("seccompProfile", .object [("type", .string c.seccompProfile)])]

structure PodSpec where
  containers : List Container
  restartPolicy : Option String := none
  security : Option PodSecurityContext := none
  volumes : Option (List PodVolume) := none
  deriving DecidableEq, Repr

def PodSpec.toJson (p : PodSpec) : Json :=
  .ofMembers
    [("containers", some (.array (p.containers.map (·.toJson)))),
     ("restartPolicy", p.restartPolicy.map .string),
     ("securityContext", p.security.map (·.toJson)),
     ("volumes", p.volumes.map fun volumes => .array (volumes.map (·.toJson)))]

/-! ## Jobs -/

structure Job where
  metadata : Metadata
  podMetadata : Metadata
  pod : PodSpec
  deriving DecidableEq, Repr

def Job.toJson (j : Job) : Json :=
  .object
    [("apiVersion", .string "batch/v1"),
     ("kind", .string "Job"),
     ("metadata", j.metadata.toJson),
     ("spec", .object
       [("template", .object
         [("metadata", j.podMetadata.toJson), ("spec", j.pod.toJson)])])]

/-- A job that owns an object as its controller: with the job the object goes as well. -/
structure OwnerReference where
  name : String
  uid : String
  deriving DecidableEq, Repr

def OwnerReference.toJson (o : OwnerReference) : Json :=
  .object
    [("apiVersion", .string "batch/v1"),
     ("blockOwnerDeletion", .bool true),
     ("controller", .bool true),
     ("kind", .string "Job"),
     ("name", .string o.name),
     ("uid", .string o.uid)]

end Manifest
end HeadJob
