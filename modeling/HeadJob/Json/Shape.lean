import HeadJob.Json.Basic
import HeadJob.Json.Skip
import HeadJob.Text.Escaped

/-!
Shapes of JSON values, and reading a value of a given shape.

A record has known members, each of a shape of its own, and members that are not known are stepped
over.  What is read is the value itself, with the members that are known.  A value of another shape
is refused at the place where it was found out to be: a value without parts behind it, and a list or
an object at its bracket.
-/

namespace HeadJob
namespace Json

/-- What a value has to look like.  `expected` is how it is named in a refusal. -/
inductive Shape where
  /-- A string that passes a check, which gives the reason of a refusal. -/
  | text (expected : String) (check : String → Option String)
  | flag
  /-- A whole number between two others. -/
  | whole (expected : String) (low high : Int)
  /-- A whole number between two others, or a string.  `range` names a number between them. -/
  | wholeOrText (expected range : String) (low high : Int)
  | anything
  /-- A string that can only be this one, as a member of a record. -/
  | constant (value : String)
  | nullable (shape : Shape)
  | list (item : Shape)
  | dictionary (value : Shape)
  | record (expected : String) (members : List (String × Shape))

/-! ## Values without parts -/

inductive Scalar where
  | null
  | flag (b : Bool)
  | amount (a : Amount)
  | text (s : String)
  deriving DecidableEq, Repr

namespace Scalar

def toJson : Scalar → Json
  | null => .null
  | flag b => .bool b
  | amount a => .number a.text
  | text s => .string s

def describe : Scalar → String
  | null => "null"
  | flag true => "boolean `true`"
  | flag false => "boolean `false`"
  | amount a => a.describe
  | text s => "string " ++ Text.diagnostic s

def read (t : Text) : Read Scalar :=
  match t with
  | [] => .error ⟨.endInValue, [], 0⟩
  | 'n' :: t => (skipWord "ull".toList t).map (null, ·)
  | 't' :: t => (skipWord "rue".toList t).map (flag true, ·)
  | 'f' :: t => (skipWord "alse".toList t).map (flag false, ·)
  | '"' :: t => (readString [] t).map fun (s, rest) => (text s, rest)
  | '-' :: t => (Amount.read true t).map fun (a, rest) => (amount a, rest)
  | c :: rest =>
    if c.isDigit then (Amount.read false (c :: rest)).map fun (a, rest) => (amount a, rest)
    else .error ⟨.expectedValue, t, 1⟩

end Scalar

/-! ## Refusals -/

/-- A value of another type than the one that is expected. -/
def wrongType (described expected : String) : Fault :=
  .unfit ("invalid type: " ++ described ++ ", expected " ++ expected)

/-- A value of the right type that is not among those expected. -/
def wrongValue (described expected : String) : Fault :=
  .unfit ("invalid value: " ++ described ++ ", expected " ++ expected)

/-- Reads a value without parts and accepts it or not. -/
def readScalar (expected : String) (accept : Scalar → Except Fault Json) (t : Text) : Read Json :=
  match skipSpace t with
  | '[' :: t => .error ⟨wrongType "sequence" expected, '[' :: t, 0⟩
  | '{' :: t => .error ⟨wrongType "map" expected, '{' :: t, 0⟩
  | t =>
    match Scalar.read t with
    | .error e => .error e
    | .ok (s, rest) =>
      match accept s with
      | .error fault => .error ⟨fault, rest, 0⟩
      | .ok v => .ok (v, rest)

def refuse (expected : String) (t : Text) : Read Json :=
  readScalar expected (fun s => .error (wrongType s.describe expected)) t

/-- Steps over a mark that closes what is being read. -/
def closeWith (c : Char) (t : Text) : Text :=
  match skipSpace t with
  | [] => []
  | d :: rest => if d = c then rest else d :: rest

/-- Steps over a mark that closes a list, or over a comma and the space after it. -/
def closeList (t : Text) : Text :=
  match skipSpace t with
  | ']' :: rest => rest
  | ',' :: rest => skipSpace rest
  | t => t

def acceptText (expected : String) (check : String → Option String) (s : Scalar) :
    Except Fault Json :=
  match s with
  | .text s =>
    match check s with
    | none => .ok (.string s)
    | some reason => .error (.unfit reason)
  | s => .error (wrongType s.describe expected)

def acceptFlag (s : Scalar) : Except Fault Json :=
  match s with
  | .flag b => .ok (.bool b)
  | s => .error (wrongType s.describe "a boolean")

def acceptWhole (expected : String) (low high : Int) (s : Scalar) : Except Fault Json :=
  match s with
  | .amount (.whole n) =>
    if low ≤ n ∧ n ≤ high then .ok s.toJson else .error (wrongValue s.describe expected)
  | s => .error (wrongType s.describe expected)

def acceptWholeOrText (expected range : String) (low high : Int) (s : Scalar) : Except Fault Json :=
  match s with
  | .amount (.whole n) =>
    if low ≤ n ∧ n ≤ high then .ok s.toJson else .error (wrongValue s.describe range)
  | .text _ => .ok s.toJson
  | s => .error (wrongType s.describe expected)

/-! ## Lists and objects -/

section Parts

variable {α : Type}

/-- Reads the items of a list after the opening bracket or after an item. -/
def readItems (read : Text → Read α) (before : List α) :
    (fuel : Nat) → (first : Bool) → Text → Read (List α)
  | 0, _, t => .error ⟨.endInList, t, 0⟩
  | fuel + 1, first, t =>
    let item (t : Text) : Read (List α) :=
      match read t with
      | .error e => .error e
      | .ok (v, t) => readItems read (v :: before) fuel false t
    match skipSpace t, first with
    | [], _ => .error ⟨.endInList, [], 0⟩
    | ']' :: t, _ => .ok (before.reverse, t)
    | ',' :: t, false =>
      match skipSpace t with
      | [] => .error ⟨.endInValue, [], 0⟩
      | ']' :: t => .error ⟨.trailingComma, ']' :: t, 1⟩
      | t => item t
    | t, true => item t
    | t, false => .error ⟨.expectedListEnd, t, 1⟩

/-- Reads the members of an object after the opening brace or after a member. -/
def readMembers (read : String → Text → Read α) (before : List (String × α)) :
    (fuel : Nat) → (first : Bool) → Text → Read (List (String × α))
  | 0, _, t => .error ⟨.endInObject, t, 0⟩
  | fuel + 1, first, t =>
    let member (t : Text) : Read (List (String × α)) :=
      match readString [] t with
      | .error e => .error e
      | .ok (name, t) =>
        match skipSpace t with
        | [] => .error ⟨.endInObject, [], 0⟩
        | ':' :: t =>
          match read name t with
          | .error e => .error e
          | .ok (v, t) => readMembers read ((name, v) :: before) fuel false t
        | t => .error ⟨.expectedColon, t, 1⟩
    match skipSpace t, first with
    | [], _ => .error ⟨.endInObject, [], 0⟩
    | '}' :: t, _ => .ok (before.reverse, t)
    | ',' :: t, false =>
      match skipSpace t with
      | [] => .error ⟨.endInValue, [], 0⟩
      | '"' :: t => member t
      | '}' :: t => .error ⟨.trailingComma, '}' :: t, 1⟩
      | t => .error ⟨.keyNotString, t, 1⟩
    | '"' :: t, true => member t
    | t, true => .error ⟨.keyNotString, t, 1⟩
    | t, false => .error ⟨.expectedObjectEnd, t, 1⟩

end Parts

/-! ## Values of a shape -/

/-- Reads a value of a shape.  `inside` reads what is one level deeper, unless there may be no deeper
one; `fuel` bounds the steps through one level. -/
def readWith (fuel : Nat) (inside : Option (Shape → Text → Read Json)) : Shape → Text → Read Json
  | .text expected check, t => readScalar expected (acceptText expected check) t
  | .flag, t => readScalar "a boolean" acceptFlag t
  | .whole expected low high, t => readScalar expected (acceptWhole expected low high) t
  | .wholeOrText expected range low high, t =>
    match skipSpace t, inside with
    | '[' :: t, none => .error ⟨.tooDeep, '[' :: t, 1⟩
    | '{' :: t, none => .error ⟨.tooDeep, '{' :: t, 1⟩
    | '[' :: t, some _ => .error ⟨wrongType "sequence" expected, closeList t, 0⟩
    | '{' :: t, some _ => .error ⟨wrongType "map" expected, closeWith '}' t, 0⟩
    | t, _ => readScalar expected (acceptWholeOrText expected range low high) t
  | .anything, t =>
    match skipSpace t, inside with
    | '[' :: t, none => .error ⟨.tooDeep, '[' :: t, 1⟩
    | '{' :: t, none => .error ⟨.tooDeep, '{' :: t, 1⟩
    | '[' :: t, some read =>
      (readItems (read .anything) [] fuel true t).map fun (items, rest) => (array items, rest)
    | '{' :: t, some read =>
      (readMembers (fun _ => read .anything) [] fuel true t).map fun (members, rest) =>
        (object members, rest)
    | t, _ => (Scalar.read t).map fun (s, rest) => (s.toJson, rest)
  | .constant value, t =>
    match readScalar "a string" (acceptText "a string" fun _ => none) t with
    | .error e => .error e
    | .ok (.string s, rest) =>
      if s = value then .ok (.string s, rest)
      else
        .error ⟨wrongValue ("string " ++ Text.diagnostic s) value, closeWith '}' rest, 0⟩
    | .ok (v, rest) => .ok (v, rest)
  | .nullable shape, t =>
    match skipSpace t with
    | 'n' :: t => (skipWord "ull".toList t).map (null, ·)
    | t => readWith fuel inside shape t
  | .list item, t =>
    match skipSpace t, inside with
    | '[' :: t, none => .error ⟨.tooDeep, '[' :: t, 1⟩
    | '[' :: t, some read =>
      (readItems (read item) [] fuel true t).map fun (items, rest) => (array items, rest)
    | t, _ => refuse "a sequence" t
  | .dictionary value, t =>
    match skipSpace t, inside with
    | '{' :: t, none => .error ⟨.tooDeep, '{' :: t, 1⟩
    | '{' :: t, some read =>
      (readMembers (fun _ => read value) [] fuel true t).map fun (members, rest) =>
        (object members, rest)
    | t, _ => refuse "a map" t
  | .record expected known, t =>
    match skipSpace t, inside with
    | '[' :: t, none => .error ⟨.tooDeep, '[' :: t, 1⟩
    | '{' :: t, none => .error ⟨.tooDeep, '{' :: t, 1⟩
    | '[' :: t, some _ => .error ⟨wrongType "sequence" expected, closeList t, 0⟩
    | '{' :: t, some read =>
      let member (name : String) (t : Text) : Read (Option Json) :=
        match known.lookup name with
        | some shape => (read shape t).map fun (v, rest) => (some v, rest)
        | none => (skipValue fuel t).map (none, ·)
      (readMembers member [] fuel true t).map fun (members, rest) => (ofMembers members, rest)
    | t, _ => refuse expected t

/-- Reads a value that has so many levels inside each other at most. -/
def readAs (fuel : Nat) : (levels : Nat) → Shape → Text → Read Json
  | 0 => readWith fuel none
  | levels + 1 => readWith fuel (some (readAs fuel levels))

/-- The most levels that are read inside each other. -/
def maxLevels : Nat := 127

/-- Refuses anything but space after a value. -/
def endOfText {α : Type} (result : α × Text) : Except ReadFault α :=
  match skipSpace result.2 with
  | [] => .ok result.1
  | rest => .error ⟨.trailingText, rest, 1⟩

/-- Reads a text that is one value of a shape. -/
def Shape.read (shape : Shape) (t : Text) : Except ReadFault Json :=
  match readAs (fuelFor t) maxLevels shape t with
  | .error e => .error e
  | .ok result => endOfText result

end Json
end HeadJob
