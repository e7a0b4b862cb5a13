import HeadJob.Config.Volume
import HeadJob.Launch.Resources

/-!
What a launch is asked to do, and what it gives back.
-/

namespace HeadJob

/-- A head job, ready to be launched. -/
structure LaunchSpec where
  name : String
  /-- The namespace of the configuration.  A launch chooses another when there is none. -/
  configuredNamespace : Option String
  image : String
  /-- What follows `nextflow run`. -/
  arguments : List String
  resources : Resources
  /-- The environment of the head container, in order. -/
  environment : List (String × String)
  volumes : List Volume
  launchDir : String
  configText : String
  deriving DecidableEq, Repr

structure LaunchHandle where
  name : String
  inNamespace : String
  secretName : String
  launcher : String
  deriving DecidableEq, Repr

end HeadJob
