import HeadJob.Text.Basic

/-!
The namespace of a launch.
-/

namespace HeadJob

/-- Where a container finds the namespace of its service account. -/
def serviceAccountNamespaceFile : String := "/run/secrets/kubernetes.io/serviceaccount/namespace"

def defaultNamespace : String := "default"

/-- The namespace that the file of a service account gives: its text without the blanks around it,
if the file is there, is text, and is not blank. -/
def accountNamespace? (file : Option ByteArray) : Option String := do
  let text ← String.fromUTF8? (← file)
  let name := Text.trim text.toList
  if name = [] then none else some (String.ofList name)

/-- The configured namespace, else that of the service account, else `default`. -/
def chooseNamespace (configured : Option String) (accountFile : Option ByteArray) : String :=
  match configured.filter (· ≠ "") with
  | some name => name
  | none => (accountNamespace? accountFile).getD defaultNamespace

end HeadJob
