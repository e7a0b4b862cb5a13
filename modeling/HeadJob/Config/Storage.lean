import HeadJob.Config.Settings
import HeadJob.Config.PodList
import HeadJob.Config.Warning

/-!
The volumes of a block: its work storage, and the records under `pod`.

Volumes on the command line go into the settings.  The first one becomes the work storage and the
others join the list under `pod`.
-/

namespace HeadJob
namespace Settings

/-- Makes a volume the work storage, in single quotes. -/
def setStorage (s : Settings) (v : Volume) : Settings :=
  (s.insert storageClaimKey ('\'' :: v.claim ++ ['\''])).insert storagePathKey
    ('\'' :: v.path ++ ['\''])

/-- Adds a volume to the list under `pod`, which is not written again if it holds the volume. -/
def addPodVolume (s : Settings) (v : Volume) : Settings :=
  let pods := PodList.parse (s.pod?.getD [])
  if pods.holds v then s else s.insert podKey (pods.merge v).toLiteral

def addVolumes (s : Settings) : List Volume → Settings
  | [] => s
  | storage :: rest => rest.foldl addPodVolume (s.setStorage storage)

def applyVolumes (s : Settings) (arguments : List Text) : Settings :=
  s.addVolumes (arguments.filterMap Volume.ofArgument?)

/-- The work storage, if both of its parts are set. -/
def storage? (s : Settings) : Option Volume := do
  return ⟨← s.storageClaim?, ← s.storagePath?⟩

/-- The volumes to mount: the work storage, then the records under `pod`, each once. -/
def volumes (s : Settings) : List Volume :=
  (Volume.records (s.pod?.getD [])).foldl
    (fun vs v => if vs.contains v then vs else vs ++ [v]) s.storage?.toList

end Settings

def Warning.ofVolumes (arguments : List Text) : List Warning :=
  (arguments.filter fun a => (Volume.ofArgument? a).isNone).map .invalidVolume

end HeadJob
