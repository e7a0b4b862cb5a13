import HeadJob.Text.Basic

/-!
Faults of a JSON text and the places at which they are reported.

A fault keeps the text that follows the place at which it was met, so that its line and column can be
told from the whole text.  Columns are counted in bytes.
-/

namespace HeadJob
namespace Json

inductive Fault where
  | endInValue
  | endInList
  | endInObject
  | endInString
  | expectedColon
  | expectedListEnd
  | expectedObjectEnd
  | expectedWord
  | expectedValue
  | invalidEscape
  | invalidNumber
  | outOfRange
  | controlInString
  | keyNotString
  | loneSurrogate
  | endOfEscape
  | trailingComma
  | trailingText
  /-- More levels inside each other than are read. -/
  | tooDeep
  /-- A value of another kind than the one that was asked for. -/
  | unfit (message : String)
  deriving DecidableEq, Repr

def Fault.message : Fault → String
  | endInValue => "EOF while parsing a value"
  | endInList => "EOF while parsing a list"
  | endInObject => "EOF while parsing an object"
  | endInString => "EOF while parsing a string"
  | expectedColon => "expected `:`"
  | expectedListEnd => "expected `,` or `]`"
  | expectedObjectEnd => "expected `,` or `\x7d`"
  | expectedWord => "expected ident"
  | expectedValue => "expected value"
  | invalidEscape => "invalid escape"
  | invalidNumber => "invalid number"
  | outOfRange => "number out of range"
  | controlInString => "control character (\\u0000-\\u001F) found while parsing a string"
  | keyNotString => "key must be a string"
  | loneSurrogate => "lone leading surrogate in hex escape"
  | endOfEscape => "unexpected end of hex escape"
  | trailingComma => "trailing comma"
  | trailingText => "trailing characters"
  | tooDeep => "recursion limit exceeded"
  | unfit message => message

/-- A fault and the text that follows it.  A fault that was met in looking ahead is reported some
bytes further, but never beyond the end. -/
structure ReadFault where
  fault : Fault
  rest : Text
  ahead : Nat := 0
  deriving DecidableEq, Repr

/-- Reading gives what was read and the text after it. -/
abbrev Read (α : Type) := Except ReadFault (α × Text)

/-- The line and column of a place so many bytes into a text that begins at a line and column. -/
def placeAfter : (bytes : Nat) → Text → (line column : Nat) → Nat × Nat
  | _, [], line, column => (line, column)
  | bytes, c :: t, line, column =>
    if bytes < c.utf8Size then (line, column + bytes)
    else if c = '\n' then placeAfter (bytes - 1) t (line + 1) 0
    else placeAfter (bytes - c.utf8Size) t line (column + c.utf8Size)

namespace ReadFault

/-- The bytes before the place at which a fault is reported. -/
def offset (f : ReadFault) (whole : Text) : Nat :=
  let size := Text.utf8Size whole
  let place := size - Text.utf8Size f.rest + f.ahead
  if place < size then place else size

/-- Lines are counted from one, and a column is the number of bytes before it on its line. -/
def position (f : ReadFault) (whole : Text) : Nat × Nat := placeAfter (f.offset whole) whole 1 0

def message (f : ReadFault) (whole : Text) : String :=
  let (line, column) := f.position whole
  f.fault.message ++ " at line " ++ toString line ++ " column " ++ toString column

end ReadFault
end Json
end HeadJob
