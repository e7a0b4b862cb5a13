import HeadJob.Number.Binary64

/-!
What the head container may use.

The limits are what was asked for.  Memory is also requested in full, and half of the processors.
-/

namespace HeadJob

inductive CpuError where
  | notNumber (amount : String)
  | notPositive (amount : String)
  deriving DecidableEq, Repr

def CpuError.message : CpuError → String
  | notNumber a => "invalid input: head cpus must be a number, got '" ++ a ++ "'"
  | notPositive a => "invalid input: head cpus must be positive, got '" ++ a ++ "'"

/-- The limits of the head container, as they were given. -/
structure Resources where
  cpus : String
  memory : String
  deriving DecidableEq, Repr

def tenthsText (n : Nat) : String := toString (n / 10) ++ "." ++ toString (n % 10)

/-- The processors to request: half of the limit, to one decimal place.  The limit is read in
binary floating point, and what is no number is passed on as it is. -/
def Resources.cpuRequest (r : Resources) : Except CpuError String :=
  match Numeral.ofText? (Text.trim r.cpus.toList) with
  | none => .error (.notNumber r.cpus)
  | some ⟨_, .notANumber⟩ => .ok "NaN"
  | some ⟨true, _⟩ => .error (.notPositive r.cpus)
  | some ⟨false, .infinite⟩ => .ok "inf"
  | some ⟨false, .finite d⟩ =>
    match Binary64.ofDecimal d with
    | .infinite => .ok "inf"
    | .finite mantissa exponent =>
      if mantissa = 0 then .error (.notPositive r.cpus)
      else .ok (tenthsText (Binary64.halfInTenths mantissa exponent))

end HeadJob
