/-!
The shell text that the head container runs.
-/

namespace HeadJob

def configMountPath : String := "/etc/nextflow"

/-- The script that runs before Nextflow: it enters the launch directory, making it first, and
copies the delivered configuration there. -/
def initScript (launchDir : String) : String :=
  "mkdir -p '" ++ launchDir ++ "'; cd '" ++ launchDir ++ "'; cp " ++ configMountPath ++
    "/nextflow.config ."

def headCommand (arguments : List String) : List String :=
  ["/bin/bash", "-c",
    "source " ++ configMountPath ++ "/init.sh; nextflow run " ++ " ".intercalate arguments]

end HeadJob
