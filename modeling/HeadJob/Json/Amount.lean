import HeadJob.Json.Token
import HeadJob.Number.Shortest

/-!
Numbers of JSON.

A whole number that fits into 64 bits is kept as it is, and every other one in the binary format.  Of
the digits of a number as many are taken as fit into 64 bits; the power of ten makes up for the
rest.  The significand and the power are then brought together in the arithmetic of the format, which
rounds twice.
-/

namespace HeadJob
namespace Json

/-- A number as it is kept.  The sign of a binary one is told apart also at zero. -/
inductive Amount where
  | whole (n : Int)
  | binary (negative : Bool) (magnitude : Binary64)
  deriving DecidableEq, Repr

namespace Amount

/-! ## Text -/

/-- Binary numbers are written with the fewest digits.  Powers of ten from the fifth below one to the
fifteenth above it are written as places. -/
def layout : DecimalLayout := ⟨-5, 15⟩

def magnitudeText : Binary64 → Text
  | .infinite => "inf".toList
  | .finite 0 _ => "0.0".toList
  | .finite m e => layout.text (Binary64.shortest m e)

def text : Amount → String
  | whole n => toString n
  | binary false magnitude => String.ofList (magnitudeText magnitude)
  | binary true magnitude => String.ofList ('-' :: magnitudeText magnitude)

def describe : Amount → String
  | whole n => "integer `" ++ text (whole n) ++ "`"
  | binary negative magnitude => "floating point `" ++ text (binary negative magnitude) ++ "`"

/-! ## Reading -/

def digitValue (c : Char) : Nat := c.toNat - '0'.toNat

def skipDigits (t : Text) : Text := t.dropWhile Char.isDigit

def beginsWithDigit (t : Text) : Bool := (t.head?.map Char.isDigit).getD false

/-- Takes digits as long as the number stays below a limit.  Gives the number, how many digits were
taken, and the text after them. -/
def takeDigits (limit : Nat) : (n count : Nat) → Text → Nat × Nat × Text
  | n, count, [] => (n, count, [])
  | n, count, c :: t =>
    if c.isDigit && 10 * n + digitValue c < limit then
      takeDigits limit (10 * n + digitValue c) (count + 1) t
    else (n, count, c :: t)

def significandLimit : Nat := 18446744073709551616

def powerLimit : Nat := 2147483648

/-- A magnitude times a power of ten that is not positive, by divisions through the largest power of
the format as long as that is needed. -/
def scaleDown (b : Binary64) (power : Nat) : Binary64 :=
  if power ≤ 308 then b.div (.ofDecimal ⟨1, power⟩)
  else if b = .finite 0 Binary64.minExponent then b
  else scaleDown (b.div (.ofDecimal ⟨1, 308⟩)) (power - 308)
termination_by power

/-- A significand times a power of ten, unless that is too large for the format. -/
def scaled? (n : Nat) (power : Int) : Option Binary64 :=
  let b := Binary64.ofNat n
  if power < 0 then some (scaleDown b (-power).toNat)
  else if n = 0 then some b
  else if 308 < power then none
  else
    match b.mul (.ofDecimal ⟨1, power⟩) with
    | .infinite => none
    | b => some b

/-- A number whose significand and power are read. -/
def ofParts (negative : Bool) (n : Nat) (power : Int) (rest : Text) : Read Amount :=
  match scaled? n power with
  | none => .error ⟨.outOfRange, rest, 0⟩
  | some b => .ok (binary negative b, rest)

def readPower (negative : Bool) (n : Nat) (power : Int) (down : Bool) (t : Text) : Read Amount :=
  match t with
  | [] => .error ⟨.endInValue, [], 0⟩
  | c :: _ =>
    if c.isDigit then
      let (p, _, rest) := takeDigits powerLimit 0 0 t
      if beginsWithDigit rest then
        if n = 0 ∨ down then .ok (binary negative (.finite 0 Binary64.minExponent), skipDigits rest)
        else .error ⟨.outOfRange, rest, 1⟩
      else ofParts negative n (if down then power - p else power + p) rest
    else .error ⟨.invalidNumber, t, 1⟩

def readExponent (negative : Bool) (n : Nat) (power : Int) (t : Text) : Read Amount :=
  match t with
  | [] => ofParts negative n power []
  | c :: rest =>
    if c = 'e' ∨ c = 'E' then
      match rest with
      | '+' :: t => readPower negative n power false t
      | '-' :: t => readPower negative n power true t
      | t => readPower negative n power false t
    else ofParts negative n power t

/-- Reads what follows the digits before the point.  Digits after it that are not taken do not
matter. -/
def readFraction (negative : Bool) (n : Nat) (power : Int) (t : Text) : Read Amount :=
  match t with
  | '.' :: t =>
    let (n, count, rest) := takeDigits significandLimit n 0 t
    if beginsWithDigit rest then readExponent negative n (power - count) (skipDigits rest)
    else if count = 0 then
      .error ⟨if rest.isEmpty then .endInValue else .invalidNumber, rest, 1⟩
    else readExponent negative n (power - count) rest
  | t => readExponent negative n power t

/-- A number without point and exponent.  A negative one that does not fit, and zero with a sign, are
kept as binary numbers. -/
def ofWhole (negative : Bool) (n : Nat) : Amount :=
  if negative = false then whole n
  else if n = 0 ∨ significandLimit / 2 < n then binary true (.ofNat n)
  else whole (-(n : Int))

/-- Reads what follows the digits of a number that fits. -/
def readRest (negative : Bool) (n : Nat) (t : Text) : Read Amount :=
  match t with
  | '.' :: _ => readFraction negative n 0 t
  | 'e' :: _ => readFraction negative n 0 t
  | 'E' :: _ => readFraction negative n 0 t
  | t => .ok (ofWhole negative n, t)

def read (negative : Bool) (t : Text) : Read Amount :=
  match t with
  | [] => .error ⟨.endInValue, [], 0⟩
  | c :: rest =>
    if c = '0' then
      if beginsWithDigit rest then .error ⟨.invalidNumber, rest, 1⟩ else readRest negative 0 rest
    else if c.isDigit then
      let (n, _, rest) := takeDigits significandLimit 0 0 t
      if beginsWithDigit rest then
        readFraction negative n (rest.takeWhile Char.isDigit).length (skipDigits rest)
      else readRest negative n rest
    else .error ⟨.invalidNumber, t, 1⟩

/-! ## Stepping over -/

def skipExponent (t : Text) : Except ReadFault Text :=
  match t with
  | [] => .ok []
  | c :: rest =>
    if c = 'e' ∨ c = 'E' then
      let digits :=
        match rest with
        | '+' :: t => t
        | '-' :: t => t
        | t => t
      if beginsWithDigit digits then .ok (skipDigits digits)
      else .error ⟨.invalidNumber, digits, 1⟩
    else .ok t

def skip (t : Text) : Except ReadFault Text :=
  match t with
  | [] => .error ⟨.invalidNumber, [], 1⟩
  | c :: rest =>
    if c = '0' ∧ beginsWithDigit rest then .error ⟨.invalidNumber, rest, 1⟩
    else if c.isDigit then
      match skipDigits rest with
      | '.' :: t =>
        if beginsWithDigit t then skipExponent (skipDigits t) else .error ⟨.invalidNumber, t, 1⟩
      | t => skipExponent t
    else .error ⟨.invalidNumber, t, 1⟩

end Amount
end Json
end HeadJob
