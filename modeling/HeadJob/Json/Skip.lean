import HeadJob.Json.Amount

/-!
Stepping over JSON values that are not looked at.

Only the outline of such a value is checked: brackets, commas, colons and the spelling of words, numbers
and strings.  It may be nested as deeply as one likes, for the brackets that are open are kept in a
list.
-/

namespace HeadJob
namespace Json

inductive Bracket where
  | list
  | object
  deriving DecidableEq, Repr

namespace Bracket

def closing : Bracket → Char
  | list => ']'
  | object => '}'

def unclosed : Bracket → Fault
  | list => .endInList
  | object => .endInObject

/-- The fault of a text that goes on with something else after a value inside. -/
def unseparated : Bracket → Fault
  | list => .expectedListEnd
  | object => .expectedObjectEnd

end Bracket

def skipScalar (t : Text) : Except ReadFault Text :=
  match t with
  | [] => .error ⟨.endInValue, [], 0⟩
  | 'n' :: t => skipWord "ull".toList t
  | 't' :: t => skipWord "rue".toList t
  | 'f' :: t => skipWord "alse".toList t
  | '"' :: t => skipString t
  | '-' :: t => Amount.skip t
  | c :: rest => if c.isDigit then Amount.skip (c :: rest) else .error ⟨.expectedValue, t, 1⟩

def skipName (t : Text) : Except ReadFault Text :=
  match skipSpace t with
  | [] => .error ⟨.endInObject, [], 0⟩
  | '"' :: t =>
    match skipString t with
    | .error e => .error e
    | .ok t =>
      match skipSpace t with
      | [] => .error ⟨.endInObject, [], 0⟩
      | ':' :: t => .ok t
      | t => .error ⟨.expectedColon, t, 1⟩
  | t => .error ⟨.keyNotString, t, 1⟩

mutual

/-- Steps over a value, and then to the end of the brackets around it.  `fuel` bounds the steps, of
which no character needs more than two. -/
def skipInside : (fuel : Nat) → (around : List Bracket) → Text → Except ReadFault Text
  | 0, _, t => .error ⟨.endInValue, t, 0⟩
  | fuel + 1, around, t =>
    match skipSpace t with
    | '[' :: t =>
      match skipSpace t with
      | [] => .error ⟨.endInList, [], 0⟩
      | ']' :: t => skipOutside fuel around t
      | t => skipInside fuel (.list :: around) t
    | '{' :: t =>
      match skipSpace t with
      | [] => .error ⟨.endInObject, [], 0⟩
      | '}' :: t => skipOutside fuel around t
      | t =>
        match skipName t with
        | .error e => .error e
        | .ok t => skipInside fuel (.object :: around) t
    | t =>
      match skipScalar t with
      | .error e => .error e
      | .ok t => skipOutside fuel around t

/-- Steps from the end of a value to the end of the brackets around it. -/
def skipOutside : (fuel : Nat) → (around : List Bracket) → Text → Except ReadFault Text
  | _, [], t => .ok t
  | 0, _ :: _, t => .error ⟨.endInValue, t, 0⟩
  | fuel + 1, bracket :: around, t =>
    match skipSpace t with
    | [] => .error ⟨bracket.unclosed, [], 0⟩
    | c :: rest =>
      if c = bracket.closing then skipOutside fuel around rest
      else if c = ',' then
        match bracket with
        | .list => skipInside fuel (.list :: around) rest
        | .object =>
          match skipName rest with
          | .error e => .error e
          | .ok t => skipInside fuel (.object :: around) t
      else .error ⟨bracket.unseparated, c :: rest, 1⟩

end

def fuelFor (t : Text) : Nat := 2 * t.length + 2

def skipValue (fuel : Nat) (t : Text) : Except ReadFault Text := skipInside fuel [] t

end Json
end HeadJob
