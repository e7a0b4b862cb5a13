import HeadJob.Cluster.Failure
import HeadJob.Cluster.Schema.Object

/-!
Objects that the server reports to have created.

Of such an object only its name and its identity matter, but the whole object has to have the shape of
its kind.
-/

namespace HeadJob
namespace Cluster

/-- A created object, as far as a launch needs it. -/
structure Created where
  name : Option String := none
  uid : Option String := none
  deriving DecidableEq, Repr

inductive ObjectKind where
  | secret
  | job
  deriving DecidableEq, Repr

def ObjectKind.shape : ObjectKind → Json.Shape
  | secret => Schema.secret
  | job => Schema.job

namespace Created

/-- Takes name and identity from the metadata of an object.  Of repeated members the last one
counts. -/
def ofJson (v : Json) : Created :=
  let text? (name : String) : Option String := do
    let metadata ← v.last? "metadata"
    (← metadata.last? name).string?
  { name := text? "name", uid := text? "uid" }

def ofReply (asked : ObjectKind) (reply : Reply) : Except Failure Created :=
  if reply.isRefusal then .error (.refused (Refusal.ofReply reply))
  else
    let text := reply.text.toList
    match asked.shape.read text with
    | .error e => .error (.unreadable (e.message text))
    | .ok v => .ok (ofJson v)

end Created
end Cluster
end HeadJob
