import HeadJob.Text.Pattern
import HeadJob.Config.Settings
import HeadJob.Config.Error

/-!
Placeholders, by which a value refers to another key of its block.

In the block `k8s`, the placeholder of the key `workDir` is a dollar sign and `k8s.workDir` in braces.
It stands for the value of the key as the block gives it, without one layer of quotes.
-/

namespace HeadJob
namespace Placeholder

/-- The characters of a key that a placeholder can name. -/
def isKeyChar (c : Char) : Bool := c.isAlphanum || c == '_'

def opening (block : Text) : Text := '$' :: '{' :: block ++ ['.']

def text (block key : Text) : Text := opening block ++ key ++ ['}']

/-- A placeholder, read as the key it names. -/
def pattern (block : Text) : Pattern Text := .ofReader fun t =>
  match Text.dropPrefix? (opening block) t with
  | none => none
  | some rest =>
    match rest.takeWhile isKeyChar, rest.dropWhile isKeyChar with
    | c :: key, '}' :: rest => some (c :: key, rest)
    | _, _ => none

/-- The keys that a value refers to, from left to right. -/
def references (block value : Text) : List Text := (pattern block).hits value

end Placeholder

namespace Settings

/-- Replaces the placeholders in the value of a key, one reference after another.  Each reference
replaces every placeholder of its key in the text as it stands by then, text from an earlier
replacement included. -/
def resolveValue (s : Settings) (block key value : Text) : Except ConfigError Text :=
  (Placeholder.references block value).foldlM (fun text reference =>
    if reference = key then .error (.selfReference key)
    else match s.get? reference with
      | none => .error (.undefinedReference key reference)
      | some target =>
        .ok (Text.replaceAll (Placeholder.text block reference) target.stripQuotes text)) value

/-- Replaces the placeholders in every value.  The values that are put in are those of `s`. -/
def resolve (s : Settings) (block : Text) : Except ConfigError Settings :=
  (s.entries.mapM fun (key, value) =>
    (s.resolveValue block key value).map fun resolved => (key, resolved)).map OrderedMap.ofList

end Settings
end HeadJob
