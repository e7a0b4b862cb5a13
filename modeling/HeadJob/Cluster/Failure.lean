import HeadJob.Cluster.Exchange
import HeadJob.Cluster.Schema.Basic

/-!
Requests that fail: what the server says of a refusal, and how that is told.
-/

namespace HeadJob
namespace Cluster

/-- A refusal, as the server's status object describes it. -/
structure Refusal where
  status : String
  message : String
  reason : String
  code : Nat
  deriving DecidableEq, Repr

inductive Failure where
  /-- The target of the request is refused, so that it cannot be sent. -/
  | unsendable (fault : TargetFault)
  | refused (refusal : Refusal)
  | unreadable (message : String)
  deriving DecidableEq, Repr

def reasonPhrase : Nat → String
  | 400 => "Bad Request"
  | 401 => "Unauthorized"
  | 402 => "Payment Required"
  | 403 => "Forbidden"
  | 404 => "Not Found"
  | 405 => "Method Not Allowed"
  | 406 => "Not Acceptable"
  | 407 => "Proxy Authentication Required"
  | 408 => "Request Timeout"
  | 409 => "Conflict"
  | 410 => "Gone"
  | 411 => "Length Required"
  | 412 => "Precondition Failed"
  | 413 => "Payload Too Large"
  | 414 => "URI Too Long"
  | 415 => "Unsupported Media Type"
  | 416 => "Range Not Satisfiable"
  | 417 => "Expectation Failed"
  | 418 => "I'm a teapot"
  | 421 => "Misdirected Request"
  | 422 => "Unprocessable Entity"
  | 423 => "Locked"
  | 424 => "Failed Dependency"
  | 425 => "Too Early"
  | 426 => "Upgrade Required"
  | 428 => "Precondition Required"
  | 429 => "Too Many Requests"
  | 431 => "Request Header Fields Too Large"
  | 451 => "Unavailable For Legal Reasons"
  | 500 => "Internal Server Error"
  | 501 => "Not Implemented"
  | 502 => "Bad Gateway"
  | 503 => "Service Unavailable"
  | 504 => "Gateway Timeout"
  | 505 => "HTTP Version Not Supported"
  | 506 => "Variant Also Negotiates"
  | 507 => "Insufficient Storage"
  | 508 => "Loop Detected"
  | 510 => "Not Extended"
  | 511 => "Network Authentication Required"
  | _ => "<unknown status code>"

namespace Refusal

open Json (Shape)

def shape : Shape :=
  .record "struct ErrorResponse"
    [("status", Schema.text), ("message", Schema.text), ("reason", Schema.text),
      ("code", .whole "u16" 0 65535)]

/-- A code of HTTP, which is written without sign, point or exponent. -/
def code? : Json → Option Nat
  | .number literal =>
    if literal.toList.all Char.isDigit then
      let n := Decimal.ofDigits literal.toList
      if n < 65536 then some n else none
    else none
  | _ => none

/-- The text of a member that may be left out, but occurs once at most. -/
def optionalText? (members : List (String × Json)) (name : String) : Option String :=
  match members.filter (·.1 == name) with
  | [] => some ""
  | [(_, .string s)] => some s
  | _ => none

/-- The refusal of a status object.  Its status and its code have to be there. -/
def ofObject? : Json → Option Refusal
  | .object members => do
    let [(_, .string status)] := members.filter (·.1 == "status") | none
    let [(_, code)] := members.filter (·.1 == "code") | none
    return ⟨status, ← optionalText? members "message", ← optionalText? members "reason",
      ← code? code⟩
  | _ => none

def ofItems? : Json → Option Refusal
  | .array [.string status, .string message, .string reason, code] =>
    (code? code).map (⟨status, message, reason, ·⟩)
  | _ => none

/-- Reads a status object, or a list of its values. -/
def ofText? (t : Text) : Option Refusal :=
  match shape.read t with
  | .ok v => ofObject? v
  | .error _ => (Shape.anything.read t).toOption.bind ofItems?

/-- What a reply with an error code says.  Where its text is no status object, the text is the
message. -/
def ofReply (reply : Reply) : Refusal :=
  match ofText? reply.text.toList with
  | some refusal => refusal
  | none =>
    { status := toString reply.status ++ " " ++ reasonPhrase reply.status
      message := Text.diagnostic reply.text
      reason := "Failed to parse error data"
      code := reply.status }

def text (r : Refusal) : String :=
  r.message ++ ": " ++ r.reason ++ " (ErrorResponse \x7b status: " ++ Text.diagnostic r.status ++
    ", message: " ++ Text.diagnostic r.message ++ ", reason: " ++ Text.diagnostic r.reason ++
    ", code: " ++ toString r.code ++ " \x7d)"

end Refusal

def Failure.message : Failure → String
  | unsendable fault => "Failed to build request: failed to build request: " ++ fault.message
  | refused r => "ApiError: " ++ r.text
  | unreadable m => "Error deserializing response: " ++ m

def Reply.isRefusal (r : Reply) : Bool := 400 ≤ r.status && r.status < 600

end Cluster
end HeadJob
