import HeadJob.Number.Decimal

/-!
Binary floating point with 53 bits, as exact arithmetic on natural numbers.

A decimal is taken to the nearest number of the format, a tie to the one whose last bit is zero.
What lies half a step or more beyond the largest number is infinite.
-/

namespace HeadJob

/-- `num / den` rounded to the nearest natural number, a tie to the even one. -/
def roundDiv (num den : Nat) : Nat :=
  let q := num / den
  let twice := 2 * (num % den)
  if twice < den then q else if den < twice then q + 1 else q + q % 2

/-- The result is within half of the quotient. -/
theorem roundDiv_close {num den : Nat} (h : 0 < den) :
    2 * (roundDiv num den * den) ≤ 2 * num + den ∧ 2 * num ≤ 2 * (roundDiv num den * den) + den := by
  have hm := Nat.div_add_mod num den
  have hl := Nat.mod_lt num h
  rw [Nat.mul_comm] at hm
  simp only [roundDiv]
  have hs : (num / den + 1) * den = num / den * den + den := by rw [Nat.add_mul, Nat.one_mul]
  split
  · omega
  · split
    · omega
    · rcases Nat.mod_two_eq_zero_or_one (num / den) with he | he <;> rw [he]
      · simp only [Nat.add_zero]; omega
      · omega

/-- The ratio `num / den` times `base` to the power `e`, again as a ratio. -/
def scaleRatio (base : Nat) (e : Int) (num den : Nat) : Nat × Nat :=
  (num * Nat.pow base e.toNat, den * Nat.pow base (-e).toNat)

theorem scaleRatio_den_pos {base den : Nat} (hb : 0 < base) (hd : 0 < den) (e : Int) (num : Nat) :
    0 < (scaleRatio base e num den).2 :=
  Nat.mul_pos hd (Nat.pow_pos hb)

/-- A number that is not negative: `mantissa` times two to the power `exponent`, or infinity. -/
inductive Binary64 where
  | finite (mantissa : Nat) (exponent : Int)
  | infinite
  deriving DecidableEq, Repr

namespace Binary64

/-- The exponent of the smallest positive number. -/
def minExponent : Int := -1074

/-- The exponent of the largest finite numbers. -/
def maxExponent : Int := 971

/-- Two to the power 53, which every mantissa is below. -/
def mantissaLimit : Nat := 9007199254740992

/-- The largest `e` for which two to the power `e` is at most `num / den`, for positive arguments. -/
def log2Ratio (num den : Nat) : Int :=
  let e : Int := (num.log2 : Int) - den.log2
  let (n, d) := scaleRatio 2 (-e) num den
  if d ≤ n then e else e - 1

/-- The exponent at which `num / den` has a mantissa of 53 bits, or the smallest one. -/
def exponentOf (num den : Nat) : Int :=
  let e := log2Ratio num den - 52
  if e < minExponent then minExponent else e

/-- A mantissa and an exponent, of which rounding may have carried the mantissa to its limit. -/
def ofCarried (m : Nat) (e : Int) : Binary64 :=
  let (m, e) := if m = mantissaLimit then (m / 2, e + 1) else (m, e)
  if maxExponent < e then .infinite else .finite m e

def ofRatio (num den : Nat) : Binary64 :=
  if num = 0 then .finite 0 minExponent
  else
    let e := exponentOf num den
    let (n, d) := scaleRatio 2 (-e) num den
    ofCarried (roundDiv n d) e

/-- The number nearest to a decimal.  Powers of ten that are far out of range are never computed. -/
def ofDecimal (d : Decimal) : Binary64 :=
  if d.digits = 0 then .finite 0 minExponent
  else
    -- The decimal lies between the powers of ten `size - 1` and `size`.
    let size : Int := (Nat.toDigits 10 d.digits).length + d.exponent
    if size > 310 then .infinite
    else if size < -330 then .finite 0 minExponent
    else
      let (num, den) := scaleRatio 10 d.exponent d.digits 1
      ofRatio num den

def ofNat (n : Nat) : Binary64 := ofRatio n 1

/-! ## Arithmetic, each result rounded once -/

def mul : Binary64 → Binary64 → Binary64
  | finite m e, finite n f =>
    let (num, den) := scaleRatio 2 (e + f) (m * n) 1
    ofRatio num den
  | _, _ => infinite

/-- The quotient by a number that is not zero. -/
def div : Binary64 → Binary64 → Binary64
  | finite m e, finite n f =>
    let (num, den) := scaleRatio 2 (e - f) m n
    ofRatio num den
  | finite _ _, infinite => finite 0 minExponent
  | infinite, _ => infinite

/-- Half of a finite number in tenths, rounded to the nearest, a tie to the even one. -/
def halfInTenths (mantissa : Nat) (exponent : Int) : Nat :=
  let (num, den) := scaleRatio 2 exponent (5 * mantissa) 1
  roundDiv num den

end Binary64
end HeadJob
