import HeadJob.Number.Binary64

/-!
The fewest decimal digits that tell a number of the binary format from all others.

A number stands for the reals that round to it: those from halfway to the number below up to halfway
to the number above, the two ends included if the mantissa is even.  Of the decimals among them with
the fewest digits the nearest one is taken.  All is compared in exact arithmetic.
-/

namespace HeadJob

/-- The reals that round to a number, in quarters of its last binary place. -/
structure RoundingInterval where
  value : Nat
  low : Nat
  high : Nat
  /-- Whether the two ends belong to it. -/
  closed : Bool
  deriving DecidableEq, Repr

namespace RoundingInterval

/-- The interval of a positive number.  Below a power of two the numbers lie closer together. -/
def ofFinite (mantissa : Nat) (exponent : Int) : RoundingInterval :=
  let narrow : Bool := mantissa = Binary64.mantissaLimit / 2 && Binary64.minExponent < exponent
  { value := 4 * mantissa
    low := if narrow then 4 * mantissa - 1 else 4 * mantissa - 2
    high := 4 * mantissa + 2
    closed := mantissa % 2 = 0 }

/-- Whether `d` steps of a grid lie in the interval, when a step and a quarter place are measured in
one unit. -/
def contains (i : RoundingInterval) (step quarter d : Nat) : Bool :=
  let point := d * step
  if i.closed then i.low * quarter ≤ point && point ≤ i.high * quarter
  else i.low * quarter < point && point < i.high * quarter

/-- The point of a grid that is nearest to the number, of those two around it that lie in the
interval.  Halfway between them it is the even one. -/
def nearest? (i : RoundingInterval) (step quarter : Nat) : Option Nat :=
  let value := i.value * quarter
  let d := value / step
  match i.contains step quarter d, i.contains step quarter (d + 1) with
  | false, false => none
  | true, false => some d
  | false, true => some (d + 1)
  | true, true => some (roundDiv value step)

end RoundingInterval

namespace Binary64

/-- A power of ten and a quarter of the last place, in one unit. -/
def gridAt (exponent place : Int) : Nat × Nat :=
  let (s, t) := scaleRatio 10 place 1 1
  let (u, v) := scaleRatio 2 (exponent - 2) 1 1
  (s * v, t * u)

/-- The least power of ten above `num / den`. -/
def scaleOf (num den : Nat) : Int :=
  let k : Int := (Nat.toDigits 10 num).length - (Nat.toDigits 10 den).length
  let (p, q) := scaleRatio 10 k den 1
  if num * q < p then k else k + 1

/-- The decimal with the fewest digits that stands for a positive number.  Seventeen digits are always
enough; the number itself would be returned if they were not. -/
def shortest (mantissa : Nat) (exponent : Int) : Decimal :=
  let interval := RoundingInterval.ofFinite mantissa exponent
  let (num, den) := scaleRatio 2 exponent mantissa 1
  let scale := scaleOf num den
  let found := (List.range 17).findSome? fun n =>
    let place := scale - (n + 1 : Nat)
    let (step, quarter) := gridAt exponent place
    (interval.nearest? step quarter).map fun digits => (⟨digits, place⟩ : Decimal)
  found.getD ⟨num * Nat.pow 5 (-exponent).toNat, -((-exponent).toNat : Int)⟩

end Binary64

/-- How a decimal is written: which exponents of ten are written as places. -/
structure DecimalLayout where
  lowest : Int
  highest : Int
  deriving DecidableEq, Repr

namespace DecimalLayout

/-- The digits of a decimal without the zeros at its end, and the exponent of the first one. -/
def digitsOf (d : Decimal) : Text × Int :=
  let all := Nat.toDigits 10 d.digits
  ((all.reverse.dropWhile (· = '0')).reverse, all.length - 1 + d.exponent)

/-- Digits with a point and at least one digit on each side of it. -/
def positional (digits : Text) (first : Int) : Text :=
  if first < 0 then
    '0' :: '.' :: List.replicate ((-first).toNat - 1) '0' ++ digits
  else
    let whole := digits.take (first.toNat + 1)
    let zeros := List.replicate (first.toNat + 1 - whole.length) '0'
    let part := digits.drop (first.toNat + 1)
    whole ++ zeros ++ '.' :: (if part = [] then ['0'] else part)

/-- Digits with a point after the first one, if there are more, and a signed exponent. -/
def scientific (digits : Text) (first : Int) : Text :=
  let point := if digits.length ≤ 1 then [] else ['.']
  digits.take 1 ++ point ++ digits.drop 1 ++ 'e' :: (if first < 0 then '-' else '+') ::
    Nat.toDigits 10 first.natAbs

def text (l : DecimalLayout) (d : Decimal) : Text :=
  let (digits, first) := digitsOf d
  if l.lowest ≤ first ∧ first ≤ l.highest then positional digits first
  else scientific digits first

end DecimalLayout
end HeadJob
