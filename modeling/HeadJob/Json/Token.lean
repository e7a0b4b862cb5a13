import HeadJob.Json.Basic
import HeadJob.Json.Fault

/-!
The smallest parts of JSON: space, words and strings.

A string is read in one of two ways.  If its characters are wanted, two escapes that stand for the
halves of one character have to stand together; if it is only stepped over, they need not.
-/

namespace HeadJob
namespace Json

def isSpace (c : Char) : Bool := c == ' ' || c == '\n' || c == '\t' || c == '\r'

def skipSpace (t : Text) : Text := t.dropWhile isSpace

def skipWord : (word : Text) → Text → Except ReadFault Text
  | [], t => .ok t
  | _ :: _, [] => .error ⟨.endInValue, [], 0⟩
  | c :: w, d :: t => if d = c then skipWord w t else .error ⟨.expectedWord, d :: t, 1⟩

theorem skipWord_append (word t : Text) : skipWord word (word ++ t) = .ok t := by
  induction word with
  | nil => rfl
  | cons c w ih => simp [skipWord, ih]

/-! ## Escapes -/

def hexValue? (c : Char) : Option Nat :=
  let n := c.toNat
  if c.isDigit then some (n - '0'.toNat)
  else if 'a'.toNat ≤ n ∧ n ≤ 'f'.toNat then some (n - 'a'.toNat + 10)
  else if 'A'.toNat ≤ n ∧ n ≤ 'F'.toNat then some (n - 'A'.toNat + 10)
  else none

/-- The number that four hexadecimal digits stand for. -/
def hexNumber? (a b c d : Char) : Option Nat := do
  let a ← hexValue? a
  let b ← hexValue? b
  let c ← hexValue? c
  let d ← hexValue? d
  return ((a * 16 + b) * 16 + c) * 16 + d

def escaped? : Char → Option Char
  | '"' => some '"'
  | '\\' => some '\\'
  | '/' => some '/'
  | 'b' => some '\x08'
  | 'f' => some '\x0c'
  | 'n' => some '\n'
  | 'r' => some '\r'
  | 't' => some '\t'
  | _ => none

/-- Whether a number is the first half of a character. -/
def isLeadingHalf (n : Nat) : Bool := 0xD800 ≤ n && n < 0xDC00

/-- Whether a number is the second half of a character. -/
def isTrailingHalf (n : Nat) : Bool := 0xDC00 ≤ n && n < 0xE000

def joinHalves (n m : Nat) : Char := Char.ofNat (0x10000 + (n - 0xD800) * 0x400 + (m - 0xDC00))

/-- The fault of an escape whose four digits are cut short, or are not all digits. -/
def hexFault (t : Text) : ReadFault :=
  if Text.utf8Size t < 4 then ⟨.endInString, [], 0⟩ else ⟨.invalidEscape, t, 4⟩

/-- The fault of the first half of a character that no escape follows. -/
def unpairedFault : Text → ReadFault
  | [] => ⟨.endInString, [], 0⟩
  | ['\\'] => ⟨.endInString, [], 0⟩
  | '\\' :: 'u' :: t => hexFault t
  | '\\' :: t => ⟨.endOfEscape, t, 1⟩
  | t => ⟨.endOfEscape, t, 1⟩

/-! ## Strings -/

def readString (before : Text) : Text → Read String
  | [] => .error ⟨.endInString, [], 0⟩
  | c :: t =>
    if c = '"' then .ok (String.ofList before.reverse, t)
    else if c = '\\' then
      match t with
      | [] => .error ⟨.endInString, [], 0⟩
      | e :: t =>
        if e = 'u' then
          match t with
          | h₁ :: h₂ :: h₃ :: h₄ :: t =>
            match hexNumber? h₁ h₂ h₃ h₄ with
            | none => .error (hexFault (h₁ :: h₂ :: h₃ :: h₄ :: t))
            | some n =>
              if isTrailingHalf n then .error ⟨.loneSurrogate, t, 0⟩
              else if isLeadingHalf n then
                match t with
                | '\\' :: 'u' :: h₁ :: h₂ :: h₃ :: h₄ :: t =>
                  match hexNumber? h₁ h₂ h₃ h₄ with
                  | none => .error (hexFault (h₁ :: h₂ :: h₃ :: h₄ :: t))
                  | some m =>
                    if isTrailingHalf m then readString (joinHalves n m :: before) t
                    else .error ⟨.loneSurrogate, t, 0⟩
                | t => .error (unpairedFault t)
              else readString (Char.ofNat n :: before) t
          | t => .error (hexFault t)
        else
          match escaped? e with
          | some d => readString (d :: before) t
          | none => .error ⟨.invalidEscape, e :: t, 1⟩
    else if c.toNat < 0x20 then .error ⟨.controlInString, c :: t, 1⟩
    else readString (c :: before) t

theorem hexValue?_hexDigit : ∀ n < 16, hexValue? (hexDigit n) = some n := by decide

/-- A character that is written as Unicode escape has two digits that matter. -/
theorem hexNumber?_hexDigit {n : Nat} (h : n < 0x20) :
    hexNumber? '0' '0' (hexDigit (n / 16)) (hexDigit (n % 16)) = some n := by
  have zero : hexValue? '0' = some 0 := by decide
  simp only [hexNumber?, zero, hexValue?_hexDigit (n / 16) (by omega),
    hexValue?_hexDigit (n % 16) (by omega), Option.bind_eq_bind, Option.bind_some, Option.pure_def]
  congr 1
  omega

theorem readString_escapeChar (before : Text) (c : Char) (rest : Text) :
    readString before (escapeChar c ++ rest) = readString (c :: before) rest := by
  unfold escapeChar
  split
  case h_8 =>
    split
    · rename_i h
      have leading : isLeadingHalf c.toNat = false := by simp [isLeadingHalf]; omega
      have trailing : isTrailingHalf c.toNat = false := by simp [isTrailingHalf]; omega
      simp only [List.cons_append, List.nil_append]
      rw [readString.eq_def]
      simp [hexNumber?_hexDigit h, leading, trailing, Char.ofNat_toNat]
    · rename_i quote backslash _ _ _ _ _ h
      rw [List.singleton_append, readString.eq_def]
      dsimp only
      rw [if_neg quote, if_neg backslash, if_neg h]
  all_goals
    rw [List.cons_append, readString.eq_def]
    simp [escaped?]

/-- What is written between quotes is read as it was. -/
theorem readString_flatMap_escapeChar (before s rest : Text) :
    readString before (s.flatMap escapeChar ++ '"' :: rest) =
      .ok (String.ofList (before.reverse ++ s), rest) := by
  induction s generalizing before with
  | nil =>
    rw [List.flatMap_nil, List.nil_append, readString.eq_def]
    simp
  | cons c s ih =>
    rw [List.flatMap_cons, List.append_assoc, readString_escapeChar, ih]
    simp

def skipString : Text → Except ReadFault Text
  | [] => .error ⟨.endInString, [], 0⟩
  | c :: t =>
    if c = '"' then .ok t
    else if c = '\\' then
      match t with
      | [] => .error ⟨.endInString, [], 0⟩
      | e :: t =>
        if e = 'u' then
          match t with
          | h₁ :: h₂ :: h₃ :: h₄ :: t =>
            if (hexNumber? h₁ h₂ h₃ h₄).isSome then skipString t
            else .error (hexFault (h₁ :: h₂ :: h₃ :: h₄ :: t))
          | t => .error (hexFault t)
        else if (escaped? e).isSome then skipString t
        else .error ⟨.invalidEscape, e :: t, 1⟩
    else if c.toNat < 0x20 then .error ⟨.controlInString, c :: t, 0⟩
    else skipString t

end Json
end HeadJob
