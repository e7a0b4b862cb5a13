import HeadJob.Text.Pattern
import HeadJob.Config.Quote
import HeadJob.Config.Warning
import HeadJob.Config.Error

/-!
A named block at the top level of a configuration, and the text around it.

The header is the name and an opening brace, on one line or with only blank lines between them.
Braces in quotes or comments count for nothing, neither in the lines before the block nor in its body.
Lines are counted from 0 here, except where a line is shown to a reader.
-/

namespace HeadJob

/-- The lines of a block's body without comments.  The first holds what follows the opening brace
and the last what stands before the closing one. -/
structure Body where
  lines : List Text
  /-- The source line of the first body line, counted from 1. -/
  firstLine : Nat
  deriving DecidableEq, Repr

structure Excerpt where
  body : Body
  before : List Text
  after : List Text
  warnings : List Warning
  deriving DecidableEq, Repr

/-! ## The header -/

/-- Where a header begins, the line of its brace, and how many characters of that line belong
to it. -/
structure Header where
  start : Nat
  line : Nat
  width : Nat
  deriving DecidableEq, Repr

namespace Header

/-- How many characters of a line the header `name {` takes, if the line starts with one.  With no
name this is a brace that opens the line. -/
def width? (name line : Text) : Option Nat :=
  match Text.dropPrefix? name (Text.trimStart line) with
  | none => none
  | some rest =>
    match Text.trimStart rest with
    | '{' :: t => some (line.length - t.length)
    | _ => none

/-- The header that a line at the top level completes.  `waiting` is the line of a name that still
lacks its brace. -/
def ending? (name : Text) (waiting : Option Nat) (index : Nat) (line : Text) : Option Header :=
  match waiting, width? [] line with
  | some start, some width => some ⟨start, index, width⟩
  | _, _ => (width? name line).map fun width => ⟨index, index, width⟩

/-- The line of a name without its brace, after a line at the top level that ends no header.  Blank
lines keep the one there is. -/
def waitingAfter (name : Text) (waiting : Option Nat) (index : Nat) (line : Text) : Option Nat :=
  if waiting.isSome ∧ Text.isAllBlank line then waiting
  else if Text.trim line = name ∧ line ≠ [] then some index
  else none

/-- Looks for a header from line `index` on, which stands `depth` braces deep.  A line that holds
the name alone does not change the depth, whatever the name is. -/
def find (name : Text) (depth : Nat) (waiting : Option Nat) (index : Nat) :
    List Text → Option Header
  | [] => none
  | raw :: rest =>
    let line := Text.stripComment raw
    let deeper := ((depth : Int) + Delimiter.braces.netChange line).toNat
    if depth = 0 then
      match ending? name waiting index line with
      | some header => some header
      | none =>
        let waiting := waitingAfter name waiting index line
        if waiting.isSome then find name 0 waiting (index + 1) rest
        else find name deeper none (index + 1) rest
    else find name deeper none (index + 1) rest

end Header

/-! ## The body -/

/-- How a body ends: with the file, or at a closing brace with the raw text after it on its line
and the lines after that one. -/
inductive Ending where
  | unterminated
  | closed (line : Nat) (trailing : Text) (rest : List Text)
  deriving DecidableEq, Repr

/-- Reads the body of a block that is `depth` braces deep, from line `index` on. -/
def Ending.read (depth index : Nat) : List Text → List Text × Ending
  | [] => ([], .unterminated)
  | raw :: rest =>
    let line := Text.stripComment raw
    match Delimiter.braces.closingOf depth line with
    | .closed n => ([line.take n], .closed index (raw.drop (n + 1)) rest)
    | .still depth =>
      let (lines, ending) := read depth (index + 1) rest
      (line :: lines, ending)

namespace Excerpt

def atHeader (lines : List Text) (header : Header) : Excerpt :=
  let source :=
    match lines.drop header.line with
    | [] => []
    | first :: rest => first.drop header.width :: rest
  let (body, ending) := Ending.read 1 header.line source
  let cut (after : List Text) (warnings : List Warning) : Excerpt :=
    { body := ⟨body, header.line + 1⟩, before := lines.take header.start, after, warnings }
  match ending with
  | .unterminated => cut [] [.unterminatedBlock (header.line + 1)]
  | .closed line trailing rest =>
    if Text.isAllBlank (Text.stripComment trailing) then cut rest []
    else cut (trailing :: rest) [.trailingContent (line + 1) (Text.trim trailing)]

/-- Cuts a configuration around its first block of this name at the top level. -/
def ofLines (name : Text) (lines : List Text) : Except ConfigError Excerpt :=
  match Header.find name 0 none 0 lines with
  | none => .error (.blockNotFound name)
  | some header => .ok (atHeader lines header)

end Excerpt
end HeadJob
