import HeadJob.Text.Basic

/-!
Decimal numerals, read exactly.

A numeral is an optional sign followed by digits with an optional point and an optional exponent, or
by one of the words `inf`, `infinity` and `nan` in any mixture of cases.  At least one digit stands
before or after the point, and an exponent has at least one.
-/

namespace HeadJob

/-- The number `digits` times ten to the power `exponent`. -/
structure Decimal where
  digits : Nat
  exponent : Int
  deriving DecidableEq, Repr

/-- What a numeral says apart from its sign. -/
inductive Magnitude where
  | finite (d : Decimal)
  | infinite
  | notANumber
  deriving DecidableEq, Repr

structure Numeral where
  negative : Bool
  magnitude : Magnitude
  deriving DecidableEq, Repr

namespace Decimal

/-- The number that digits stand for, most significant first. -/
def ofDigits (ds : Text) : Nat := ds.foldl (fun n c => 10 * n + (c.toNat - '0'.toNat)) 0

def exponent? (t : Text) : Option Int :=
  let signed (negative : Bool) (ds : Text) : Option Int :=
    if ds.isEmpty || !ds.all Char.isDigit then none
    else some (if negative then -(ofDigits ds : Int) else ofDigits ds)
  match t with
  | '+' :: ds => signed false ds
  | '-' :: ds => signed true ds
  | ds => signed false ds

/-- Reads digits with an optional point and an optional exponent. -/
def ofText? (t : Text) : Option Decimal :=
  let whole := t.takeWhile Char.isDigit
  let rest := t.dropWhile Char.isDigit
  let (part, rest) :=
    match rest with
    | '.' :: r => (r.takeWhile Char.isDigit, r.dropWhile Char.isDigit)
    | r => ([], r)
  if whole.isEmpty && part.isEmpty then none
  else
    let scaled (e : Int) : Decimal := ⟨ofDigits (whole ++ part), e - part.length⟩
    match rest with
    | [] => some (scaled 0)
    | c :: e => if c.toLower = 'e' then (exponent? e).map scaled else none

end Decimal

namespace Numeral

def magnitude? (t : Text) : Option Magnitude :=
  let word := t.map Char.toLower
  if word = "inf".toList ∨ word = "infinity".toList then some .infinite
  else if word = "nan".toList then some .notANumber
  else (Decimal.ofText? t).map .finite

def ofText? (t : Text) : Option Numeral :=
  match t with
  | '-' :: r => (magnitude? r).map (⟨true, ·⟩)
  | '+' :: r => (magnitude? r).map (⟨false, ·⟩)
  | r => (magnitude? r).map (⟨false, ·⟩)

end Numeral
end HeadJob
