import HeadJob.Cluster.Schema.Container

/-!
Shapes of volumes, by where their content comes from.
-/

namespace HeadJob
namespace Cluster
namespace Schema

open Json (Shape)

def localObject : Shape := .record "LocalObjectReference" (texts ["name"])

/-! ## Content from the cluster -/

def keyToPath : Shape := .record "KeyToPath" (texts ["key", "path"] ++ int32s ["mode"])

/-- Entries of a config map or a secret as files. -/
def entryFiles : Members := many "items" keyToPath ++ flags ["optional"]

def configMapVolume : Shape :=
  .record "ConfigMapVolumeSource" (entryFiles ++ texts ["name"] ++ int32s ["defaultMode"])

def secretVolume : Shape :=
  .record "SecretVolumeSource" (entryFiles ++ texts ["secretName"] ++ int32s ["defaultMode"])

def downwardFile : Shape :=
  .record "DownwardAPIVolumeFile" <|
    texts ["path"] ++ int32s ["mode"] ++ one "fieldRef" fieldSelector ++
      one "resourceFieldRef" resourceSelector

def downwardVolume : Shape :=
  .record "DownwardAPIVolumeSource" (many "items" downwardFile ++ int32s ["defaultMode"])

def trustBundle : Shape :=
  .record "ClusterTrustBundleProjection" <|
    texts ["name", "path", "signerName"] ++ flags ["optional"] ++ one "labelSelector" labelSelector

def accountToken : Shape :=
  .record "ServiceAccountTokenProjection" (texts ["audience", "path"] ++ int64s ["expirationSeconds"])

def volumeProjection : Shape :=
  .record "VolumeProjection" <|
    one "clusterTrustBundle" trustBundle ++
      one "configMap" (.record "ConfigMapProjection" (entryFiles ++ texts ["name"])) ++
      one "downwardAPI" (.record "DownwardAPIProjection" (many "items" downwardFile)) ++
      one "secret" (.record "SecretProjection" (entryFiles ++ texts ["name"])) ++
      one "serviceAccountToken" accountToken

def projectedVolume : Shape :=
  .record "ProjectedVolumeSource" (many "sources" volumeProjection ++ int32s ["defaultMode"])

/-! ## Claims -/

def claimSource : Shape :=
  .record "PersistentVolumeClaimVolumeSource" (texts ["claimName"] ++ flags ["readOnly"])

def claim : Shape :=
  .record "PersistentVolumeClaimSpec" <|
    texts ["storageClassName", "volumeAttributesClassName", "volumeMode", "volumeName"] ++
      textLists ["accessModes"] ++
      one "dataSource" (.record "TypedLocalObjectReference" (texts ["apiGroup", "kind", "name"])) ++
      one "dataSourceRef"
        (.record "TypedObjectReference" (texts ["apiGroup", "kind", "name", "namespace"])) ++
      one "resources" (.record "VolumeResourceRequirements" (all amounts ["limits", "requests"])) ++
      one "selector" labelSelector

def claimTemplate : Shape :=
  .record "PersistentVolumeClaimTemplate" (one "metadata" metadata ++ one "spec" claim)

def ephemeralVolume : Shape :=
  .record "EphemeralVolumeSource" (one "volumeClaimTemplate" claimTemplate)

/-! ## Content from elsewhere -/

/-- A source with a file system, which may be for reading only. -/
def disk (expected : String) (names : List String) (others : Members) : Shape :=
  .record expected (texts ("fsType" :: names) ++ flags ["readOnly"] ++ others)

def secretRef : Members := one "secretRef" localObject

def cephVolume : Shape :=
  .record "CephFSVolumeSource" <|
    texts ["path", "secretFile", "user"] ++ textLists ["monitors"] ++ flags ["readOnly"] ++ secretRef

def quobyteVolume : Shape :=
  .record "QuobyteVolumeSource" <|
    texts ["group", "registry", "tenant", "user", "volume"] ++ flags ["readOnly"]

def iscsiVolume : Shape :=
  disk "ISCSIVolumeSource" ["initiatorName", "iqn", "iscsiInterface", "targetPortal"] <|
    flags ["chapAuthDiscovery", "chapAuthSession"] ++ int32s ["lun"] ++ textLists ["portals"] ++
      secretRef

def scaleVolume : Shape :=
  disk "ScaleIOVolumeSource"
    ["gateway", "protectionDomain", "storageMode", "storagePool", "system", "volumeName"]
    (flags ["sslEnabled"] ++ secretRef)

def vsphereVolume : Shape :=
  .record "VsphereVirtualDiskVolumeSource" <|
    texts ["fsType", "storagePolicyID", "storagePolicyName", "volumePath"]

def outsideSources : Members :=
  one "awsElasticBlockStore"
      (disk "AWSElasticBlockStoreVolumeSource" ["volumeID"] (int32s ["partition"])) ++
    one "azureDisk" (disk "AzureDiskVolumeSource" ["cachingMode", "diskName", "diskURI", "kind"] []) ++
    one "azureFile"
      (.record "AzureFileVolumeSource" (texts ["secretName", "shareName"] ++ flags ["readOnly"])) ++
    one "cephfs" cephVolume ++
    one "cinder" (disk "CinderVolumeSource" ["volumeID"] secretRef) ++
    one "csi"
      (disk "CSIVolumeSource" ["driver"]
        (one "nodePublishSecretRef" localObject ++ textMaps ["volumeAttributes"])) ++
    one "fc" (disk "FCVolumeSource" [] (int32s ["lun"] ++ textLists ["targetWWNs", "wwids"])) ++
    one "flexVolume" (disk "FlexVolumeSource" ["driver"] (textMaps ["options"] ++ secretRef)) ++
    one "flocker" (.record "FlockerVolumeSource" (texts ["datasetName", "datasetUUID"])) ++
    one "gcePersistentDisk"
      (disk "GCEPersistentDiskVolumeSource" ["pdName"] (int32s ["partition"])) ++
    one "gitRepo" (.record "GitRepoVolumeSource" (texts ["directory", "repository", "revision"])) ++
    one "glusterfs"
      (.record "GlusterfsVolumeSource" (texts ["endpoints", "path"] ++ flags ["readOnly"])) ++
    one "image" (.record "ImageVolumeSource" (texts ["pullPolicy", "reference"])) ++
    one "iscsi" iscsiVolume ++
    one "nfs" (.record "NFSVolumeSource" (texts ["path", "server"] ++ flags ["readOnly"])) ++
    one "photonPersistentDisk" (.record "PhotonPersistentDiskVolumeSource" (texts ["fsType", "pdID"])) ++
    one "portworxVolume" (disk "PortworxVolumeSource" ["volumeID"] []) ++
    one "quobyte" quobyteVolume ++
    one "rbd"
      (disk "RBDVolumeSource" ["image", "keyring", "pool", "user"]
        (textLists ["monitors"] ++ secretRef)) ++
    one "scaleIO" scaleVolume ++
    one "storageos" (disk "StorageOSVolumeSource" ["volumeName", "volumeNamespace"] secretRef) ++
    one "vsphereVolume" vsphereVolume

/-! ## Volumes -/

def volume : Shape :=
  .record "Volume" <|
    texts ["name"] ++ one "configMap" configMapVolume ++ one "downwardAPI" downwardVolume ++
      one "emptyDir" (.record "EmptyDirVolumeSource" (texts ["medium", "sizeLimit"])) ++
      one "ephemeral" ephemeralVolume ++
      one "hostPath" (.record "HostPathVolumeSource" (texts ["path", "type"])) ++
      one "persistentVolumeClaim" claimSource ++ one "projected" projectedVolume ++
      one "secret" secretVolume ++ outsideSources

end Schema
end Cluster
end HeadJob
