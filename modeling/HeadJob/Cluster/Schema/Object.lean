import HeadJob.Cluster.Schema.Pod

/-!
Shapes of the objects that a launch creates: secrets and jobs.

An object need not say of which kind and version it is, but may not say anything wrong.
-/

namespace HeadJob
namespace Cluster
namespace Schema

open Json (Shape)

def object (kind version : String) (others : Members) : Shape :=
  .record kind <|
    [("apiVersion", .constant version), ("kind", .constant kind)] ++ one "metadata" metadata ++ others

/-! ## Secrets -/

def secret : Shape :=
  object "Secret" "v1" <|
    texts ["type"] ++ flags ["immutable"] ++ one "data" (.dictionary bytes) ++ textMaps ["stringData"]

/-! ## Jobs -/

/-- When a failed pod fails the job. -/
def failurePolicy : Shape :=
  .record "PodFailurePolicy" <|
    many "rules" <|
      .record "PodFailurePolicyRule" <|
        texts ["action"] ++
          one "onExitCodes"
            (.record "PodFailurePolicyOnExitCodesRequirement"
              (texts ["containerName", "operator"] ++ many "values" int32)) ++
          many "onPodConditions"
            (.record "PodFailurePolicyOnPodConditionsPattern" (texts ["status", "type"]))

/-- When the job has succeeded before all its pods have. -/
def successPolicy : Shape :=
  .record "SuccessPolicy" <|
    many "rules" <|
      .record "SuccessPolicyRule" (texts ["succeededIndexes"] ++ int32s ["succeededCount"])

def jobSpec : Shape :=
  .record "JobSpec" <|
    texts ["completionMode", "managedBy", "podReplacementPolicy"] ++
      flags ["manualSelector", "suspend"] ++ int64s ["activeDeadlineSeconds"] ++
      int32s ["backoffLimit", "backoffLimitPerIndex", "completions", "maxFailedIndexes",
        "parallelism", "ttlSecondsAfterFinished"] ++
      one "podFailurePolicy" failurePolicy ++ one "selector" labelSelector ++
      one "successPolicy" successPolicy ++ one "template" podTemplate

def jobCondition : Shape :=
  .record "JobCondition" <|
    texts ["message", "reason", "status", "type"] ++
      all timestamp ["lastProbeTime", "lastTransitionTime"]

def jobStatus : Shape :=
  .record "JobStatus" <|
    texts ["completedIndexes", "failedIndexes"] ++
      int32s ["active", "failed", "ready", "succeeded", "terminating"] ++
      all timestamp ["completionTime", "startTime"] ++ many "conditions" jobCondition ++
      one "uncountedTerminatedPods"
        (.record "UncountedTerminatedPods" (textLists ["failed", "succeeded"]))

def job : Shape := object "Job" "batch/v1" (one "spec" jobSpec ++ one "status" jobStatus)

end Schema
end Cluster
end HeadJob
