import HeadJob.OrderedMap

/-!
The environment of the head container.

It has the defaults of the executor and every variable of the launching process that is meant for
Nextflow.  Passed variables are taken in the order of their names, and of their values where a name
occurs twice, so that the result does not depend on the order in which they were given.
-/

namespace HeadJob
namespace Environment

def defaults : List (String × String) := [("NXF_EXECUTOR", "k8s"), ("NXF_ANSI_LOG", "false")]

def isPassed (name : String) : Bool := "NXF_".toList.isPrefixOf name.toList

/-- The order of variables: by name, then by value, both by the code points of their characters. -/
def inOrder (a b : String × String) : Bool :=
  decide (a.1 < b.1) || (a.1 == b.1 && decide (a.2 ≤ b.2))

/-- The environment of the head container for a process with these variables.  A passed variable
replaces a default in its place. -/
def ofProcess (vars : List (String × String)) : List (String × String) :=
  (OrderedMap.ofList (defaults ++
    (vars.filter fun v => isPassed v.1).mergeSort inOrder)).entries

end Environment
end HeadJob
