import HeadJob.Cluster.Schema.Basic

/-!
What all objects of a cluster say about themselves, and how objects are selected by that.
-/

namespace HeadJob
namespace Cluster
namespace Schema

open Json (Shape)

def owner : Shape :=
  .record "OwnerReference" <|
    texts ["apiVersion", "kind", "name", "uid"] ++ flags ["blockOwnerDeletion", "controller"]

/-- Which fields of an object somebody manages. -/
def managedFields : Shape :=
  .record "ManagedFieldsEntry" <|
    texts ["apiVersion", "fieldsType", "manager", "operation", "subresource"] ++
      one "fieldsV1" .anything ++ one "time" timestamp

def metadata : Shape :=
  .record "ObjectMeta" <|
    texts ["generateName", "name", "namespace", "resourceVersion", "selfLink", "uid"] ++
      textMaps ["annotations", "labels"] ++ textLists ["finalizers"] ++
      all timestamp ["creationTimestamp", "deletionTimestamp"] ++
      int64s ["deletionGracePeriodSeconds", "generation"] ++
      many "managedFields" managedFields ++ many "ownerReferences" owner

/-- A condition on the labels of an object. -/
def labelRequirement : Shape :=
  .record "LabelSelectorRequirement" (texts ["key", "operator"] ++ textLists ["values"])

def labelSelector : Shape :=
  .record "LabelSelector" (many "matchExpressions" labelRequirement ++ textMaps ["matchLabels"])

end Schema
end Cluster
end HeadJob
