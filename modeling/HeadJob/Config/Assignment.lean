import HeadJob.Config.Settings
import HeadJob.Config.Block

/-!
The assignments `key = value` in the body of a block.

A value that opens more brackets (or else braces) than it closes goes on over the following lines
until it is balanced, joined by single spaces.  Sub-blocks `name { ... }` are carried through line
by line.  Nothing here fails: what cannot be read becomes a warning.
-/

namespace HeadJob

structure Contents where
  settings : Settings
  /-- The lines of sub-blocks, trimmed, with closing braces for those that the body leaves open. -/
  nested : List Text
  warnings : List Warning
  deriving DecidableEq

/-- A value that is read over several lines. -/
structure OpenValue where
  key : Text
  line : Nat
  text : Text
  delimiter : Delimiter
  depth : Nat
  deriving DecidableEq, Repr

/-- What the next line belongs to: an assignment of its own, a sub-block that is so many braces
deep, or a value. -/
inductive Reading where
  | idle
  | nested (depth : Nat)
  | value (v : OpenValue)
  deriving DecidableEq, Repr

namespace Reading

/-- Inside a sub-block as long as a brace is open. -/
def ofDepth (depth : Int) : Reading := if 0 < depth then nested depth.toNat else idle

end Reading

namespace Text

/-- Whether a line opens a sub-block: outside quotes a brace comes before any equals sign. -/
def opensSubBlock (line : Text) : Bool :=
  (Scan.start.outside line).find? (fun c => c = '{' || c = '=') == some '{'

/-- The key and the value around the first equals sign, if neither is blank. -/
def assignment? (line : Text) : Option (Text × Text) :=
  match line.dropWhile (· ≠ '=') with
  | [] => none
  | _ :: value =>
    let key := trim (line.takeWhile (· ≠ '='))
    let value := trim value
    if key = [] ∨ value = [] then none else some (key, value)

end Text

/-- What has been read of a body, and what the next line belongs to. -/
structure BodyReader where
  settings : Settings := ∅
  nested : List Text := []
  warnings : List Warning := []
  reading : Reading := .idle

namespace BodyReader

def warn (r : BodyReader) (w : Warning) : BodyReader := { r with warnings := r.warnings ++ [w] }

def assign (r : BodyReader) (line : Nat) (key value : Text) : BodyReader :=
  let set := { r with settings := r.settings.insert key value, reading := .idle }
  match r.settings.get? key with
  | none => set
  | some previous => set.warn (.duplicateKey line key previous)

/-- Reads the value of a key: brackets are looked at first, then braces. -/
def startValue (r : BodyReader) (line : Nat) (key value : Text) : List Delimiter → BodyReader
  | [] => r.assign line key value
  | d :: ds =>
    let depth := d.netChange value
    if 0 < depth then { r with reading := .value ⟨key, line, value, d, depth.toNat⟩ }
    else if depth < 0 then r.warn (.unbalanced line d.closing key)
    else startValue r line key value ds

def start (r : BodyReader) (line : Nat) (t : Text) : BodyReader :=
  let deeper := Reading.ofDepth (Delimiter.braces.netChange t)
  if t.opensSubBlock then
    { r.warn (.nestedBlock line t) with nested := r.nested ++ [t], reading := deeper }
  else
    match t.assignment? with
    | none => { r.warn (.notAssignment line t) with reading := deeper }
    | some (key, value) =>
      r.startValue line key value [Delimiter.brackets, Delimiter.braces]

/-- Reads on in a value.  The line on which its delimiter closes is taken as a whole. -/
def continueValue (r : BodyReader) (v : OpenValue) (t : Text) : BodyReader :=
  let text := v.text ++ ' ' :: t
  match v.delimiter.closingOf v.depth t with
  | .closed _ => r.assign v.line v.key (Text.trim text)
  | .still depth => { r with reading := .value { v with text, depth } }

/-- Reads a line, which is trimmed, and passes over an empty one. -/
def feed (r : BodyReader) (line : Nat) (t : Text) : BodyReader :=
  if t = [] then r
  else
    match r.reading with
    | .idle => r.start line t
    | .nested depth =>
      { r with
        nested := r.nested ++ [t]
        reading := .ofDepth (depth + Delimiter.braces.netChange t) }
    | .value v => r.continueValue v t

def feedAll (r : BodyReader) (line : Nat) : List Text → BodyReader
  | [] => r
  | t :: ts => feedAll (r.feed line t.trim) (line + 1) ts

/-- Ends the body.  A value that is still open is dropped, and a sub-block is closed, so that it
stays balanced when it is written. -/
def finish (r : BodyReader) : Contents :=
  match r.reading with
  | .idle => ⟨r.settings, r.nested, r.warnings⟩
  | .nested depth => ⟨r.settings, r.nested ++ List.replicate depth ['}'], r.warnings⟩
  | .value v =>
    ⟨r.settings, r.nested,
      r.warnings ++ [.unterminatedValue v.line v.key v.delimiter.closing]⟩

end BodyReader

def Body.contents (b : Body) : Contents := (BodyReader.feedAll {} b.firstLine b.lines).finish

end HeadJob
