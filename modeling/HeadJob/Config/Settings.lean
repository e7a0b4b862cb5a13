import HeadJob.OrderedMap
import HeadJob.Config.Quote

/-!
The assignments of a block, and the keys that a launch looks at.
-/

namespace HeadJob

/-- Keys and values in the order of the source.  Values are kept as they were written, with their
quotes, brackets and placeholders. -/
abbrev Settings := OrderedMap Text Text

namespace Settings

/-! ## Keys -/

def namespaceKey : Text := "namespace".toList
def launchDirKey : Text := "launchDir".toList
def workDirKey : Text := "workDir".toList
def projectDirKey : Text := "projectDir".toList
def podKey : Text := "pod".toList
def storageClaimKey : Text := "storageClaimName".toList
def storagePathKey : Text := "storageMountPath".toList

/-! ## Values -/

def unquoted? (s : Settings) (key : Text) : Option Text := (s.get? key).map Text.stripQuotes

/-- The value without one layer of quotes, unless nothing is left of it. -/
def nonEmpty? (s : Settings) (key : Text) : Option Text := (s.unquoted? key).filter (· ≠ [])

def namespace? (s : Settings) : Option Text := s.nonEmpty? namespaceKey
def launchDir? (s : Settings) : Option Text := s.nonEmpty? launchDirKey
def workDir? (s : Settings) : Option Text := s.nonEmpty? workDirKey
def projectDir? (s : Settings) : Option Text := s.nonEmpty? projectDirKey
def storageClaim? (s : Settings) : Option Text := s.nonEmpty? storageClaimKey
def storagePath? (s : Settings) : Option Text := s.nonEmpty? storagePathKey

/-- The list literal under `pod`, as it was written. -/
def pod? (s : Settings) : Option Text := s.get? podKey

end Settings
end HeadJob
