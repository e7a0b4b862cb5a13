/-!
Base 64 with padding: three bytes are written as four characters of six bits each.

What is read has to be in exactly the form that is written: groups of four, padding only at the very
end, and no bit set that the padding leaves out.
-/

namespace HeadJob
namespace Base64

/-! ## Writing -/

def digit (n : Nat) : Char :=
  if n < 26 then Char.ofNat ('A'.toNat + n)
  else if n < 52 then Char.ofNat ('a'.toNat + (n - 26))
  else if n < 62 then Char.ofNat ('0'.toNat + (n - 52))
  else if n = 62 then '+' else '/'

/-- The bytes three at a time; a last group of one or two is filled up with `=`. -/
def encode : List UInt8 → List Char
  | [] => []
  | [a] =>
    let n := a.toNat * 16
    [digit (n / 64), digit (n % 64), '=', '=']
  | [a, b] =>
    let n := (a.toNat * 256 + b.toNat) * 4
    [digit (n / 4096), digit (n / 64 % 64), digit (n % 64), '=']
  | a :: b :: c :: rest =>
    let n := (a.toNat * 256 + b.toNat) * 256 + c.toNat
    digit (n / 262144) :: digit (n / 4096 % 64) :: digit (n / 64 % 64) :: digit (n % 64) ::
      encode rest

def ofString (s : String) : String := String.ofList (encode s.toUTF8.data.toList)

/-! ## Reading -/

/-- Why a text is not in base 64.  Places are counted in bytes. -/
inductive Fault where
  | symbol (byte : UInt8) (offset : Nat)
  | length (n : Nat)
  /-- The last character sets bits that belong to no byte. -/
  | lastSymbol (byte : UInt8) (offset : Nat)
  | padding
  deriving DecidableEq, Repr

def Fault.message : Fault → String
  | symbol byte offset => "Invalid symbol " ++ toString byte ++ ", offset " ++ toString offset ++ "."
  | length n => "Invalid input length: " ++ toString n
  | lastSymbol byte offset =>
    "Invalid last symbol " ++ toString byte ++ ", offset " ++ toString offset ++ "."
  | padding => "Invalid padding"

def paddingByte : UInt8 := 61

/-- The value of a byte that stands for six bits. -/
def value? (byte : UInt8) : Option Nat :=
  let n := byte.toNat
  if 'A'.toNat ≤ n ∧ n ≤ 'Z'.toNat then some (n - 'A'.toNat)
  else if 'a'.toNat ≤ n ∧ n ≤ 'z'.toNat then some (n - 'a'.toNat + 26)
  else if '0'.toNat ≤ n ∧ n ≤ '9'.toNat then some (n - '0'.toNat + 52)
  else if n = '+'.toNat then some 62
  else if n = '/'.toNat then some 63
  else none

def valueAt (offset : Nat) (byte : UInt8) : Except Fault Nat :=
  match value? byte with
  | some n => .ok n
  | none => .error (.symbol byte offset)

/-- The bytes of a last group: as many as its values fill. -/
def lastBytes (offset : Nat) (last : UInt8) (values : List Nat) : Except Fault (List UInt8) :=
  let byte (n : Nat) : UInt8 := UInt8.ofNat n
  match values with
  | [a, b] =>
    if b % 16 = 0 then .ok [byte (a * 4 + b / 16)] else .error (.lastSymbol last (offset + 1))
  | [a, b, c] =>
    if c % 4 = 0 then .ok [byte (a * 4 + b / 16), byte (b % 16 * 16 + c / 4)]
    else .error (.lastSymbol last (offset + 2))
  | [a, b, c, d] =>
    .ok [byte (a * 4 + b / 16), byte (b % 16 * 16 + c / 4), byte (c % 4 * 64 + d)]
  | _ => .error (.length (offset + values.length))

/-- Reads the last group, which begins at `offset`.  Padding may stand in its second half, and nothing
but padding after it. -/
def decodeLast (offset : Nat) (group : List UInt8) : Except Fault (List UInt8) :=
  let symbols := group.takeWhile (· ≠ paddingByte)
  let rest := group.drop symbols.length
  match (symbols.zipIdx offset).mapM fun (byte, place) => valueAt place byte with
  | .error e => .error e
  | .ok values =>
    if rest ≠ [] ∧ (symbols.length < 2 ∨ rest.any (· ≠ paddingByte)) then
      .error (.symbol paddingByte (offset + symbols.length))
    else if values.length < 2 then .error (.length (offset + values.length))
    else if group.length ≠ 4 then .error .padding
    else lastBytes offset (symbols.getLast?.getD paddingByte) values

/-- Reads all groups.  None but the last may have padding. -/
def decodeFrom (offset : Nat) : List UInt8 → Except Fault (List UInt8)
  | [] => .ok []
  | a :: b :: c :: d :: e :: rest => do
    let a ← valueAt offset a
    let b ← valueAt (offset + 1) b
    let c ← valueAt (offset + 2) c
    let d ← valueAt (offset + 3) d
    let n := ((a * 64 + b) * 64 + c) * 64 + d
    let bytes ← decodeFrom (offset + 4) (e :: rest)
    return UInt8.ofNat (n / 65536) :: UInt8.ofNat (n / 256 % 256) :: UInt8.ofNat (n % 256) :: bytes
  | group => decodeLast offset group

/-- Reads bytes.  Of a text that is one byte too long that byte is looked at first. -/
def decode (text : List UInt8) : Except Fault (List UInt8) :=
  match text.getLast? with
  | none => .ok []
  | some last =>
    if text.length % 4 = 1 ∧ last ≠ paddingByte ∧ value? last = none then
      .error (.symbol last (text.length - 1))
    else decodeFrom 0 text

end Base64
end HeadJob
