import HeadJob.Cluster.Schema.Metadata

/-!
Shapes of containers: what they run, what they are given, and how they are watched.
-/

namespace HeadJob
namespace Cluster
namespace Schema

open Json (Shape)

/-! ## Environment -/

/-- The key of an entry in a config map or a secret. -/
def keySelector (expected : String) : Shape :=
  .record expected (texts ["key", "name"] ++ flags ["optional"])

def fieldSelector : Shape := .record "ObjectFieldSelector" (texts ["apiVersion", "fieldPath"])

def resourceSelector : Shape :=
  .record "ResourceFieldSelector" (texts ["containerName", "divisor", "resource"])

def variableSource : Shape :=
  .record "EnvVarSource" <|
    one "configMapKeyRef" (keySelector "ConfigMapKeySelector") ++ one "fieldRef" fieldSelector ++
      one "resourceFieldRef" resourceSelector ++
      one "secretKeyRef" (keySelector "SecretKeySelector")

def environmentVariable : Shape :=
  .record "EnvVar" (texts ["name", "value"] ++ one "valueFrom" variableSource)

def wholeSource (expected : String) : Shape :=
  .record expected (texts ["name"] ++ flags ["optional"])

def environmentSource : Shape :=
  .record "EnvFromSource" <|
    texts ["prefix"] ++ one "configMapRef" (wholeSource "ConfigMapEnvSource") ++
      one "secretRef" (wholeSource "SecretEnvSource")

/-! ## Actions and probes -/

def execAction : Shape := .record "ExecAction" (textLists ["command"])

def httpHeader : Shape := .record "HTTPHeader" (texts ["name", "value"])

def httpAction : Shape :=
  .record "HTTPGetAction" <|
    texts ["host", "path", "scheme"] ++ many "httpHeaders" httpHeader ++ one "port" numberOrName

def sleepAction : Shape := .record "SleepAction" (int64s ["seconds"])

def tcpAction : Shape := .record "TCPSocketAction" (texts ["host"] ++ one "port" numberOrName)

def grpcAction : Shape := .record "GRPCAction" (texts ["service"] ++ int32s ["port"])

def lifecycleHandler : Shape :=
  .record "LifecycleHandler" <|
    one "exec" execAction ++ one "httpGet" httpAction ++ one "sleep" sleepAction ++
      one "tcpSocket" tcpAction

def lifecycle : Shape := .record "Lifecycle" (all lifecycleHandler ["postStart", "preStop"])

def probe : Shape :=
  .record "Probe" <|
    int32s ["failureThreshold", "initialDelaySeconds", "periodSeconds", "successThreshold",
        "timeoutSeconds"] ++
      int64s ["terminationGracePeriodSeconds"] ++ one "exec" execAction ++ one "grpc" grpcAction ++
      one "httpGet" httpAction ++ one "tcpSocket" tcpAction

/-! ## Resources -/

def resourceClaim : Shape := .record "ResourceClaim" (texts ["name", "request"])

def resources : Shape :=
  .record "ResourceRequirements" <|
    many "claims" resourceClaim ++ one "limits" amounts ++ one "requests" amounts

def resizePolicy : Shape :=
  .record "ContainerResizePolicy" (texts ["resourceName", "restartPolicy"])

/-! ## Security -/

def profile (expected : String) : Shape := .record expected (texts ["localhostProfile", "type"])

def capabilities : Shape := .record "Capabilities" (textLists ["add", "drop"])

def seLinuxOptions : Shape := .record "SELinuxOptions" (texts ["level", "role", "type", "user"])

def windowsOptions : Shape :=
  .record "WindowsSecurityContextOptions" <|
    texts ["gmsaCredentialSpec", "gmsaCredentialSpecName", "runAsUserName"] ++
      flags ["hostProcess"]

/-- What the security of a container and of a pod have in common. -/
def commonSecurity : Members :=
  flags ["runAsNonRoot"] ++ int64s ["runAsGroup", "runAsUser"] ++
    one "appArmorProfile" (profile "AppArmorProfile") ++
    one "seccompProfile" (profile "SeccompProfile") ++ one "seLinuxOptions" seLinuxOptions ++
    one "windowsOptions" windowsOptions

def containerSecurity : Shape :=
  .record "SecurityContext" <|
    commonSecurity ++ texts ["procMount"] ++
      flags ["allowPrivilegeEscalation", "privileged", "readOnlyRootFilesystem"] ++
      one "capabilities" capabilities

/-! ## Containers -/

def containerPort : Shape :=
  .record "ContainerPort" <|
    texts ["hostIP", "name", "protocol"] ++ int32s ["containerPort", "hostPort"]

def volumeDevice : Shape := .record "VolumeDevice" (texts ["devicePath", "name"])

def volumeMount : Shape :=
  .record "VolumeMount" <|
    texts ["mountPath", "mountPropagation", "name", "recursiveReadOnly", "subPath", "subPathExpr"] ++
      flags ["readOnly"]

def containerMembers : Members :=
  texts ["image", "imagePullPolicy", "name", "restartPolicy", "terminationMessagePath",
      "terminationMessagePolicy", "workingDir"] ++
    textLists ["args", "command"] ++ flags ["stdin", "stdinOnce", "tty"] ++
    many "env" environmentVariable ++ many "envFrom" environmentSource ++
    one "lifecycle" lifecycle ++ all probe ["livenessProbe", "readinessProbe", "startupProbe"] ++
    many "ports" containerPort ++ many "resizePolicy" resizePolicy ++ one "resources" resources ++
    one "securityContext" containerSecurity ++ many "volumeDevices" volumeDevice ++
    many "volumeMounts" volumeMount

def container : Shape := .record "Container" containerMembers

/-- A container that is put into a running pod. -/
def ephemeralContainer : Shape :=
  .record "EphemeralContainer" (containerMembers ++ texts ["targetContainerName"])

end Schema
end Cluster
end HeadJob
