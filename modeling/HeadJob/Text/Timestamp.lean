import HeadJob.Text.Basic
import HeadJob.Number.Decimal

/-!
Points in time, written as date, time of day and distance from universal time.

The format is read with some leniency: numbers may be short and may have blanks before them, blanks
may stand around the separators, and a year with a sign may have any number of digits.  The time has
to exist in the calendar, whose years are -262143 to 262142.
-/

namespace HeadJob

/-- A point in time.  `east` is how many seconds the clock shows more than universal time. -/
structure Timestamp where
  year : Int
  month : Nat
  day : Nat
  hour : Nat
  minute : Nat
  second : Nat
  east : Int
  deriving DecidableEq, Repr

namespace Timestamp

inductive Fault where
  | tooShort
  | tooLong
  | invalid
  | outOfRange
  /-- The time exists on the clock, but not in universal time. -/
  | impossible
  deriving DecidableEq, Repr

def Fault.message : Fault → String
  | tooShort => "premature end of input"
  | tooLong => "trailing input"
  | invalid => "input contains invalid characters"
  | outOfRange => "input is out of range"
  | impossible => "no possible date and time matching input"

/-! ## The calendar -/

def isLeap (year : Int) : Bool := year % 4 = 0 && (year % 100 ≠ 0 || year % 400 = 0)

def daysOf (year : Int) (month : Nat) : Nat :=
  if month = 2 then (if isLeap year then 29 else 28)
  else if month = 4 ∨ month = 6 ∨ month = 9 ∨ month = 11 then 30
  else 31

def firstYear : Int := -262143
def lastYear : Int := 262142
def secondsOfDay : Int := 86400

/-- The second of the day, in universal time, which may lie on the day before or after. -/
def universalSecond (t : Timestamp) : Int :=
  -- A leap second is counted with the one before it.
  let second := if t.second = 60 then 59 else t.second
  (t.hour * 3600 + t.minute * 60 + second : Nat) - t.east

/-- Whether the calendar begins or ends between the time on the clock and universal time. -/
def isBeyond (t : Timestamp) : Bool :=
  (t.year = firstYear && t.month = 1 && t.day = 1 && t.universalSecond < 0) ||
    (t.year = lastYear && t.month = 12 && t.day = 31 && secondsOfDay ≤ t.universalSecond)

def checked (t : Timestamp) : Except Fault Timestamp :=
  if t.year < firstYear ∨ lastYear < t.year ∨ daysOf t.year t.month < t.day then .error .outOfRange
  else if t.east ≤ -secondsOfDay ∨ secondsOfDay ≤ t.east then .error .outOfRange
  else if t.isBeyond then .error .impossible
  else .ok t

/-! ## Reading -/

/-- Reads a number of at least one digit and at most `width`. -/
def number (width : Nat) (t : Text) : Except Fault (Nat × Text) :=
  match t with
  | [] => .error .tooShort
  | c :: _ =>
    if c.isDigit then
      let digits := (t.take width).takeWhile Char.isDigit
      let n := Decimal.ofDigits digits
      if n < 9223372036854775808 then .ok (n, t.drop digits.length) else .error .outOfRange
    else .error .invalid

/-- Reads a number of one or two digits that lies between two others. -/
def numberIn (low high : Nat) (t : Text) : Except Fault (Nat × Text) := do
  let (n, rest) ← number 2 (Text.trimStart t)
  if low ≤ n ∧ n ≤ high then .ok (n, rest) else .error .outOfRange

/-- Reads a year of up to four digits, or of any number of digits after a sign. -/
def readYear (t : Text) : Except Fault (Int × Text) := do
  let (year, rest) ←
    match Text.trimStart t with
    | '-' :: t => (number t.length t).map fun (n, rest) => (-(n : Int), rest)
    | '+' :: t => (number t.length t).map fun (n, rest) => ((n : Int), rest)
    | t => (number 4 t).map fun (n, rest) => ((n : Int), rest)
  if -2147483648 ≤ year ∧ year ≤ 2147483647 then .ok (year, rest) else .error .outOfRange

/-- Steps over a mark with blanks before it. -/
def skipMark (mark : Char) (t : Text) : Except Fault Text :=
  match Text.trimStart t with
  | [] => .error .tooShort
  | c :: rest => if c = mark then .ok rest else .error .invalid

def skipDivider (t : Text) : Except Fault Text :=
  match t with
  | [] => .error .tooShort
  | c :: rest => if c = 't' ∨ c = 'T' ∨ c = ' ' then .ok rest else .error .invalid

def skipFraction (t : Text) : Except Fault Text :=
  match t with
  | '.' :: t => (number 9 t).map fun (_, rest) => rest.dropWhile Char.isDigit
  | t => .ok t

/-- Reads two digits, the first of them below `limit`. -/
def readPair (limit : Nat) (t : Text) : Except Fault (Nat × Text) :=
  match t with
  | [] => .error .tooShort
  | [c] => if c.utf8Size < 2 then .error .tooShort else .error .invalid
  | c :: d :: rest =>
    if c.isDigit ∧ d.isDigit then
      let n := Decimal.ofDigits [c, d]
      if n < 10 * limit then .ok (n, rest) else .error .outOfRange
    else .error .invalid

/-- Reads hours and minutes of a distance from universal time, with colons and blanks between. -/
def readDistance (t : Text) : Except Fault (Int × Text) := do
  let (hours, rest) ← readPair 10 t
  let (minutes, rest) ← readPair 6 (rest.dropWhile fun c => c = ':' || Text.isBlank c)
  .ok ((hours * 3600 + minutes * 60 : Nat), rest)

/-- Reads how far the clock is from universal time. -/
def readEast (t : Text) : Except Fault (Int × Text) :=
  if (t.take 3).map Char.toUpper = "UTC".toList then .ok (0, t.drop 3)
  else
    match t with
    | [] => .error .tooShort
    | c :: rest =>
      if c = 'Z' ∨ c = 'z' then .ok (0, rest)
      else if c = '+' then readDistance rest
      else if c = '-' ∨ c = '\u2212' then (readDistance rest).map fun (n, rest) => (-n, rest)
      else .error .invalid

def ofText (t : Text) : Except Fault Timestamp := do
  let (year, t) ← readYear t
  let t ← skipMark '-' t
  let (month, t) ← numberIn 1 12 t
  let t ← skipMark '-' t
  let (day, t) ← numberIn 1 31 t
  let t ← skipDivider t
  let (hour, t) ← numberIn 0 23 t
  let t ← skipMark ':' t
  let (minute, t) ← numberIn 0 59 t
  let t ← skipMark ':' t
  let (second, t) ← numberIn 0 60 t
  let t ← skipFraction t
  let (east, t) ← readEast (Text.trimStart t)
  if Text.isAllBlank t then checked { year, month, day, hour, minute, second, east }
  else .error .tooLong

end Timestamp
end HeadJob
