import HeadJob.Config.Assignment
import HeadJob.Config.Placeholder
import HeadJob.Config.Storage

/-!
A configuration with one of its blocks read, and the way back to text.

A launch reads the document, puts in the volumes of the command line, resolves the placeholders and
writes the document again.  Volumes come before placeholders, so that a placeholder sees the storage
that the command line chose.
-/

namespace HeadJob

/-- A block of a configuration and the raw lines around it. -/
structure Document where
  name : Text
  settings : Settings
  nested : List Text
  before : List Text
  after : List Text
  warnings : List Warning
  deriving DecidableEq

/-- A block: its assignments, then the lines of its sub-blocks. -/
def Settings.render (s : Settings) (name : Text) (nested : List Text) : Text :=
  let indent := "   ".toList
  name ++ " \x7b".toList ++ ['\n'] ++
    Text.unlines (s.entries.map fun (key, value) => indent ++ key ++ " = ".toList ++ value) ++
    Text.unlines (nested.map (indent ++ ·)) ++ ['}', '\n']

namespace Document

/-- The name of the block that holds the cluster settings. -/
def clusterBlock : Text := "k8s".toList

def ofText (name text : Text) : Except ConfigError Document :=
  match Excerpt.ofLines name text.lines with
  | .error e => .error e
  | .ok excerpt =>
    let contents := excerpt.body.contents
    .ok
      { name
        settings := contents.settings
        nested := contents.nested
        before := excerpt.before
        after := excerpt.after
        warnings := excerpt.warnings ++ contents.warnings }

def ofFile (name : Text) (file : Except ReadError ByteArray) : Except ConfigError Document :=
  match file with
  | .error e => .error (.unreadable e)
  | .ok bytes =>
    match String.fromUTF8? bytes with
    | none => .error (.unreadable .notUtf8)
    | some text => ofText name text.toList

def resolve (d : Document) : Except ConfigError Document :=
  (d.settings.resolve d.name).map fun settings => { d with settings }

def applyVolumes (d : Document) (arguments : List Text) : Document :=
  { d with
    settings := d.settings.applyVolumes arguments
    warnings := d.warnings ++ Warning.ofVolumes arguments }

def volumes (d : Document) : List Volume := d.settings.volumes

/-- The document as text.  The lines after the block are parted by line feeds, and none follows the
last one. -/
def render (d : Document) : Text :=
  Text.unlines d.before ++ d.settings.render d.name d.nested ++ Text.join ['\n'] d.after

end Document
end HeadJob
