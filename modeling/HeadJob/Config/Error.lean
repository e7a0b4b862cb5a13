import HeadJob.Text.Basic

/-!
Reasons why a configuration cannot be used.
-/

namespace HeadJob

inductive ReadError where
  | refused (description : String) (code : Nat)
  /-- The name is none that the system could look up. -/
  | badName
  | notUtf8
  deriving DecidableEq, Repr

namespace ReadError

def notFound : ReadError := refused "No such file or directory" 2
def notDirectory : ReadError := refused "Not a directory" 20
def isDirectory : ReadError := refused "Is a directory" 21

def nameTooLong : ReadError := refused "File name too long" 36

def message : ReadError → String
  | refused description code => description ++ " (os error " ++ toString code ++ ")"
  | badName => "file name contained an unexpected NUL byte"
  | notUtf8 => "stream did not contain valid UTF-8"

end ReadError

inductive ConfigError where
  | blockNotFound (name : Text)
  | selfReference (key : Text)
  | undefinedReference (key reference : Text)
  | unreadable (cause : ReadError)
  deriving DecidableEq, Repr

namespace ConfigError

def message : ConfigError → String
  | blockNotFound n => String.ofList n ++ " block not found in config"
  | selfReference k => "self-reference detected in key: " ++ String.ofList k
  | undefinedReference k r =>
    "reference to undefined key '" ++ String.ofList r ++ "' in '" ++ String.ofList k ++ "'"
  | unreadable e => "IO error: " ++ e.message

/-- The message, then the messages of what caused it. -/
def chain (e : ConfigError) : List String :=
  match e with
  | unreadable cause => [e.message, cause.message]
  | _ => [e.message]

end ConfigError
end HeadJob
