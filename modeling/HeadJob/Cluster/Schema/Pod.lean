import HeadJob.Cluster.Schema.Volume

/-!
Shapes of pods: containers, volumes, and where and how they run.
-/

namespace HeadJob
namespace Cluster
namespace Schema

open Json (Shape)

/-! ## Affinity -/

/-- Affinity that is wished for and affinity that is demanded. -/
def affinityRules (preferred required : Shape) : Members :=
  many "preferredDuringSchedulingIgnoredDuringExecution" preferred ++
    one "requiredDuringSchedulingIgnoredDuringExecution" required

def nodeRequirement : Shape :=
  .record "NodeSelectorRequirement" (texts ["key", "operator"] ++ textLists ["values"])

def nodeTerm : Shape :=
  .record "NodeSelectorTerm" (all (.list nodeRequirement) ["matchExpressions", "matchFields"])

def nodeAffinity : Shape :=
  .record "NodeAffinity" <|
    affinityRules
      (.record "PreferredSchedulingTerm" (one "preference" nodeTerm ++ int32s ["weight"]))
      (.record "NodeSelector" (many "nodeSelectorTerms" nodeTerm))

def podTerm : Shape :=
  .record "PodAffinityTerm" <|
    texts ["topologyKey"] ++ all labelSelector ["labelSelector", "namespaceSelector"] ++
      textLists ["matchLabelKeys", "mismatchLabelKeys", "namespaces"]

def podAffinity (expected : String) : Shape :=
  .record expected <|
    affinityRules
      (.record "WeightedPodAffinityTerm" (one "podAffinityTerm" podTerm ++ int32s ["weight"]))
      (.list podTerm)

def affinity : Shape :=
  .record "Affinity" <|
    one "nodeAffinity" nodeAffinity ++ one "podAffinity" (podAffinity "PodAffinity") ++
      one "podAntiAffinity" (podAffinity "PodAntiAffinity")

/-! ## Scheduling -/

def toleration : Shape :=
  .record "Toleration" (texts ["effect", "key", "operator", "value"] ++ int64s ["tolerationSeconds"])

def topologySpread : Shape :=
  .record "TopologySpreadConstraint" <|
    texts ["nodeAffinityPolicy", "nodeTaintsPolicy", "topologyKey", "whenUnsatisfiable"] ++
      int32s ["maxSkew", "minDomains"] ++ textLists ["matchLabelKeys"] ++
      one "labelSelector" labelSelector

/-! ## Network -/

def dnsConfig : Shape :=
  .record "PodDNSConfig" <|
    textLists ["nameservers", "searches"] ++
      many "options" (.record "PodDNSConfigOption" (texts ["name", "value"]))

def hostAlias : Shape := .record "HostAlias" (texts ["ip"] ++ textLists ["hostnames"])

/-! ## Pods -/

def podSecurity : Shape :=
  .record "PodSecurityContext" <|
    commonSecurity ++ texts ["fsGroupChangePolicy", "seLinuxChangePolicy", "supplementalGroupsPolicy"] ++
      int64s ["fsGroup"] ++ many "supplementalGroups" int64 ++
      many "sysctls" (.record "Sysctl" (texts ["name", "value"]))

def podResourceClaim : Shape :=
  .record "PodResourceClaim" (texts ["name", "resourceClaimName", "resourceClaimTemplateName"])

def podSpec : Shape :=
  .record "PodSpec" <|
    texts ["dnsPolicy", "hostname", "nodeName", "preemptionPolicy", "priorityClassName",
        "restartPolicy", "runtimeClassName", "schedulerName", "serviceAccount",
        "serviceAccountName", "subdomain"] ++
      flags ["automountServiceAccountToken", "enableServiceLinks", "hostIPC", "hostNetwork",
        "hostPID", "hostUsers", "setHostnameAsFQDN", "shareProcessNamespace"] ++
      int64s ["activeDeadlineSeconds", "terminationGracePeriodSeconds"] ++ int32s ["priority"] ++
      textMaps ["nodeSelector"] ++ one "overhead" amounts ++ one "affinity" affinity ++
      all (.list container) ["containers", "initContainers"] ++
      many "ephemeralContainers" ephemeralContainer ++ one "dnsConfig" dnsConfig ++
      many "hostAliases" hostAlias ++ many "imagePullSecrets" localObject ++
      one "os" (.record "PodOS" (texts ["name"])) ++
      many "readinessGates" (.record "PodReadinessGate" (texts ["conditionType"])) ++
      many "resourceClaims" podResourceClaim ++ one "resources" resources ++
      many "schedulingGates" (.record "PodSchedulingGate" (texts ["name"])) ++
      one "securityContext" podSecurity ++ many "tolerations" toleration ++
      many "topologySpreadConstraints" topologySpread ++ many "volumes" volume

def podTemplate : Shape :=
  .record "PodTemplateSpec" (one "metadata" metadata ++ one "spec" podSpec)

end Schema
end Cluster
end HeadJob
