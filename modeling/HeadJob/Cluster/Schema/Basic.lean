import HeadJob.Json.Shape
import HeadJob.Text.Base64
import HeadJob.Text.Timestamp

/-!
Shapes that the objects of a cluster are made of.

Members of the same shape are listed together.  Every one of them may be null, which says that it is
not set.
-/

namespace HeadJob
namespace Cluster
namespace Schema

open Json (Shape)

abbrev Members := List (String × Shape)

def text : Shape := .text "a string" fun _ => none

def int32 : Shape := .whole "i32" (-2147483648) 2147483647

def int64 : Shape := .whole "i64" (-9223372036854775808) 9223372036854775807

def timestamp : Shape :=
  .text "an RFC 3339 formatted date and time string" fun s =>
    match Timestamp.ofText s.toList with
    | .ok _ => none
    | .error e => some e.message

/-- Bytes in base 64, of which there are none if the value is null. -/
def bytes : Shape :=
  .nullable <| .text "a base64-encoded string" fun s =>
    match Base64.decode s.toUTF8.data.toList with
    | .ok _ => none
    | .error e => some e.message

def numberOrName : Shape :=
  .wholeOrText "IntOrString" "a 32-bit integer" (-2147483648) 2147483647

def amounts : Shape := .dictionary text

/-! ## Members -/

def all (shape : Shape) (names : List String) : Members := names.map (·, .nullable shape)

def texts (names : List String) : Members := all text names
def flags (names : List String) : Members := all .flag names
def int32s (names : List String) : Members := all int32 names
def int64s (names : List String) : Members := all int64 names
def textLists (names : List String) : Members := all (.list text) names
def textMaps (names : List String) : Members := all (.dictionary text) names

def one (name : String) (shape : Shape) : Members := all shape [name]

def many (name : String) (item : Shape) : Members := all (.list item) [name]

end Schema
end Cluster
end HeadJob
