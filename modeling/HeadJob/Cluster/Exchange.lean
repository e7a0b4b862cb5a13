import HeadJob.Cluster.Target
import HeadJob.Json.Basic

/-!
Talking to the API server of a cluster: requests, replies, and exchanges of both.

An exchange is what a client does with the replies it gets.  It is a value, so that every script of
replies can be played to it and every request it sends can be looked at.
-/

namespace HeadJob
namespace Cluster

inductive Method where
  | post
  | mergePatch
  deriving DecidableEq, Repr

def Method.text : Method → String
  | post => "POST"
  | mergePatch => "PATCH"

def Method.contentType : Method → String
  | post => "application/json"
  | mergePatch => "application/merge-patch+json"

structure Request where
  method : Method
  path : String
  body : Json

/-- The request with the path of its target, as it is sent. -/
def Request.addressed (r : Request) : Except TargetFault Request :=
  (Target.path r.path).map ({ r with path := · })

/-- The answer to a request: a status code of HTTP and the text that came with it. -/
structure Reply where
  status : Nat
  text : String
  deriving DecidableEq, Repr

def secretsPath (ns : String) : String := "/api/v1/namespaces/" ++ ns ++ "/secrets"
def jobsPath (ns : String) : String := "/apis/batch/v1/namespaces/" ++ ns ++ "/jobs"
def secretPath (ns name : String) : String := secretsPath ns ++ "/" ++ name

/-- A client that ends with a result, or sends a request and goes on with the reply. -/
inductive Exchange (α : Type) where
  | done (result : α)
  | send (request : Request) (next : Reply → Exchange α)

namespace Exchange

variable {α : Type}

def deliver (r : Request) (refused : TargetFault → Exchange α) (next : Reply → Exchange α) :
    Exchange α :=
  match r.addressed with
  | .error fault => refused fault
  | .ok r => send r next

/-- Plays replies to a client: the requests that it sends, and its result, unless it still waits for
a reply when none is left. -/
def run : Exchange α → List Reply → List Request × Option α
  | done a, _ => ([], some a)
  | send r _, [] => ([r], none)
  | send r next, reply :: replies =>
    let (requests, result) := run (next reply) replies
    (r :: requests, result)

end Exchange
end Cluster
end HeadJob
