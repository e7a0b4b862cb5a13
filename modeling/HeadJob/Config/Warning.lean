import HeadJob.Text.Basic

/-!
Problems that do not stop a configuration from loading.

A warning holds what it is about; its wording is one function.
-/

namespace HeadJob

/-- A problem that was met and passed over.  Lines are counted from 1. -/
inductive Warning where
  /-- A block line that assigns nothing and opens no sub-block. -/
  | notAssignment (line : Nat) (text : Text)
  | unbalanced (line : Nat) (closing : Char) (key : Text)
  /-- A sub-block, which is carried through as it is. -/
  | nestedBlock (line : Nat) (text : Text)
  /-- A value over several lines whose delimiter never closes.  The key is dropped. -/
  | unterminatedValue (line : Nat) (key : Text) (closing : Char)
  /-- A key assigned again.  The last value wins. -/
  | duplicateKey (line : Nat) (key previous : Text)
  /-- A block that the file ends in. -/
  | unterminatedBlock (line : Nat)
  /-- Text after the closing brace, which is left outside the block. -/
  | trailingContent (line : Nat) (text : Text)
  /-- A volume argument that is no claim and mount path. -/
  | invalidVolume (argument : Text)
  deriving DecidableEq, Repr

namespace Warning

inductive Kind where
  | malformedAssignment
  | nestedBlock
  | unterminatedListValue
  | duplicateKey
  | unterminatedBlock
  | trailingContent
  | invalidVolumeArg
  deriving DecidableEq, Repr

def Kind.text : Kind → String
  | malformedAssignment => "malformed assignment"
  | nestedBlock => "nested block"
  | unterminatedListValue => "unterminated list value"
  | duplicateKey => "duplicate key"
  | unterminatedBlock => "unterminated block"
  | trailingContent => "trailing content"
  | invalidVolumeArg => "invalid volume argument"

def kind : Warning → Kind
  | notAssignment .. | unbalanced .. => .malformedAssignment
  | nestedBlock .. => .nestedBlock
  | unterminatedValue .. => .unterminatedListValue
  | duplicateKey .. => .duplicateKey
  | unterminatedBlock .. => .unterminatedBlock
  | trailingContent .. => .trailingContent
  | invalidVolume .. => .invalidVolumeArg

def line? : Warning → Option Nat
  | notAssignment n _ | unbalanced n _ _ | nestedBlock n _ | unterminatedValue n _ _
  | duplicateKey n _ _ | unterminatedBlock n | trailingContent n _ => some n
  | invalidVolume _ => none

def message : Warning → String
  | notAssignment _ t => "not an assignment: " ++ String.ofList t
  | unbalanced _ c k =>
    "unbalanced '" ++ c.toString ++ "' in value of '" ++ String.ofList k ++ "'"
  | nestedBlock _ t => "passing nested block through unparsed: " ++ String.ofList t
  | unterminatedValue _ k c =>
    "value of '" ++ String.ofList k ++ "' never reaches its closing '" ++ c.toString ++
      "'; key dropped"
  | duplicateKey _ k p =>
    "'" ++ String.ofList k ++ "' assigned again, replacing " ++ String.ofList p
  | unterminatedBlock _ => "block is never closed; reading to end of file"
  | trailingContent _ t => "text after closing brace kept outside the block: " ++ String.ofList t
  | invalidVolume a =>
    "invalid input: volume must be <claim>:<mountPath>, got '" ++ String.ofList a ++ "'"

/-- The warning as it is shown: its line if it has one, its kind, its message. -/
def text (w : Warning) : String :=
  match w.line? with
  | some n => "line " ++ toString n ++ ": " ++ w.kind.text ++ ": " ++ w.message
  | none => w.kind.text ++ ": " ++ w.message

end Warning
end HeadJob
