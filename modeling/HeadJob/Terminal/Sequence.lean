import HeadJob.Text.Basic

/-!
Control sequences in text for a terminal.

The escape character begins a sequence, and the characters behind it tell which kind it is and where
it ends.  Where there is no terminal to obey a sequence, it is left out, and so are the control
characters that stand for no blank.

Sequences are made of the bytes of UTF-8.  Beyond ASCII only the byte 0x9C has a meaning in them, so
they can be read by characters.
-/

namespace HeadJob

inductive Sequence where
  | outside
  | escape
  /-- Between the escape character and the last character of a short sequence. -/
  | short
  /-- In a control sequence, such as one that sets a colour. -/
  | control
  /-- At the start of a device control string. -/
  | device
  | deviceParameters
  | deviceIntermediates
  /-- In a command to the operating system. -/
  | command
  /-- In a string for the terminal itself. -/
  | string
  deriving DecidableEq, Repr

namespace Sequence

/-- The blanks among the control characters.  Only strings hold them; any other sequence is broken
off. -/
def isBreak (c : Char) : Bool := c == '\t' || c == '\n' || c == '\x0c' || c == '\r'

def isIntermediate (c : Char) : Bool := 0x20 ≤ c.toNat && c.toNat ≤ 0x2F

def isParameter (c : Char) : Bool := 0x30 ≤ c.toNat && c.toNat ≤ 0x3F

/-- Parameters that belong in front of all others. -/
def isPrivate (c : Char) : Bool := 0x3C ≤ c.toNat && c.toNat ≤ 0x3F

def isFinal (c : Char) : Bool := 0x40 ≤ c.toNat && c.toNat ≤ 0x7E

/-- Whether a string ends at a character: one of its bytes is 0x9C. -/
def endsString (c : Char) : Bool := (String.singleton c).toUTF8.data.toList.contains 0x9C

/-- The kind of sequence that a character behind the escape character begins. -/
def kindOf (c : Char) : Sequence :=
  if c = '[' then control
  else if c = ']' then command
  else if c = 'P' then device
  else if c = 'X' || c = '^' || c = '_' then string
  else if isIntermediate c then short
  else if isParameter c || isFinal c || isBreak c then outside
  else escape

/-- Where the reader stands after a character, unless that breaks off sequences of any kind. -/
def within (s : Sequence) (c : Char) : Sequence :=
  match s with
  | outside => outside
  | escape => kindOf c
  | short => if isParameter c || isFinal c || isBreak c then outside else short
  | control => if isFinal c || isBreak c then outside else control
  | device =>
    if isFinal c then string
    else if isParameter c then deviceParameters
    else if isIntermediate c then deviceIntermediates
    else device
  | deviceParameters =>
    if isFinal c || isPrivate c then string
    else if isIntermediate c then deviceIntermediates
    else deviceParameters
  | deviceIntermediates => if isFinal c || isParameter c then string else deviceIntermediates
  | command => if c = '\x07' then outside else command
  | string => if endsString c then outside else string

/-- Where the reader stands after a character.  A sequence of any kind is broken off by the escape
character, which begins the next one, and by the two characters that cancel. -/
def next (s : Sequence) (c : Char) : Sequence :=
  if c = '\x1b' then escape
  else if c = '\x18' || c = '\x1a' then outside
  else s.within c

def shows (s : Sequence) (c : Char) : Bool :=
  match s with
  | outside => (0x20 ≤ c.toNat && c ≠ '\x7f') || isBreak c
  | escape | short | control => isBreak c
  | _ => false

def visible (s : Sequence) : Text → Text
  | [] => []
  | c :: t => if s.shows c then c :: visible (s.next c) t else visible (s.next c) t

end Sequence
end HeadJob
