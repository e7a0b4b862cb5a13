import HeadJob.Text.Basic

/-!
Quotes within a line.

A quote opens and closes within one line, so every line is scanned afresh.  A character right after
a backslash never opens or closes a quote.  Characters outside quotes carry the structure of a
configuration: delimiters, and the two slashes that begin a comment.
-/

namespace HeadJob

inductive Quote where
  | single
  | double
  deriving DecidableEq, Repr

namespace Quote

def mark : Quote → Char
  | single => '\''
  | double => '"'

def ofMark? (c : Char) : Option Quote :=
  if c = '\'' then some single else if c = '"' then some double else none

theorem ofMark?_eq_some_iff {c : Char} {q : Quote} : ofMark? c = some q ↔ c = q.mark := by
  cases q <;> simp only [ofMark?, mark] <;> split <;> simp_all

end Quote

/-- Where a scan of a line stands: the quote it is inside, and whether a backslash came last. -/
structure Scan where
  quote : Option Quote := none
  escaped : Bool := false
  deriving DecidableEq, Repr

namespace Scan

/-- The scan at the start of a line that no quote is carried into. -/
def start : Scan := {}

def quoteAfter (s : Scan) (c : Char) : Option Quote :=
  if s.escaped then s.quote
  else match s.quote with
    | none => Quote.ofMark? c
    | some q => if c = q.mark then none else some q

def next (s : Scan) (c : Char) : Scan := ⟨s.quoteAfter c, c == '\\'⟩

/-- Whether `c` stands outside quotes; a quote mark that opens or closes a quote does not. -/
def isOutside (s : Scan) (c : Char) : Bool := s.quote.isNone && (s.quoteAfter c).isNone

/-- The characters outside quotes, each with its distance from the start in bytes of UTF-8. -/
def outsideFrom (s : Scan) (offset : Nat) : Text → List (Nat × Char)
  | [] => []
  | c :: t =>
    let rest := outsideFrom (s.next c) (offset + c.utf8Size) t
    if s.isOutside c then (offset, c) :: rest else rest

def outside (s : Scan) : Text → Text
  | [] => []
  | c :: t => if s.isOutside c then c :: outside (s.next c) t else outside (s.next c) t

/-- The text before a comment, and the quote that the scan is inside where that text ends. -/
def beforeComment (s : Scan) : Text → Text × Option Quote
  | [] => ([], s.quote)
  | c :: t =>
    if s.quote = none ∧ c = '/' ∧ t.head? = some '/' then ([], none)
    else
      let (kept, quote) := beforeComment (s.next c) t
      (c :: kept, quote)

/-- A comment is cut off the end and nothing else is touched. -/
theorem beforeComment_isPrefix (s : Scan) (t : Text) : (s.beforeComment t).1 <+: t := by
  induction t generalizing s with
  | nil => exact List.nil_prefix
  | cons c t ih =>
    simp only [beforeComment]
    split
    · exact List.nil_prefix
    · exact (List.prefix_cons_inj c).2 (ih _)

end Scan

namespace Text

/-- The characters of a line outside quotes, with their offsets in bytes of UTF-8. -/
def outsideQuotes (line : Text) : List (Nat × Char) := Scan.start.outsideFrom 0 line

def stripComment (line : Text) : Text := (Scan.start.beforeComment line).1

def stripQuotes (t : Text) : Text :=
  match t with
  | [] => []
  | c :: r =>
    if (Quote.ofMark? c).isSome && r.getLast? == some c then r.dropLast else t

end Text

/-- A pair of marks of which one opens and the other closes. -/
structure Delimiter where
  opening : Char
  closing : Char
  deriving DecidableEq, Repr

namespace Delimiter

def brackets : Delimiter := ⟨'[', ']'⟩
def braces : Delimiter := ⟨'{', '}'⟩

/-- What a character outside quotes adds to the nesting depth. -/
def change (d : Delimiter) (c : Char) : Int :=
  if c = d.opening then 1 else if c = d.closing then -1 else 0

/-- How much deeper the nesting is after a line than before it. -/
def netChange (d : Delimiter) (line : Text) : Int :=
  (Scan.start.outside line).foldr (fun c n => d.change c + n) 0

/-- How a search for the closing mark ends: still this deep, or closed at a character, counted
from the start of the line. -/
inductive Closing where
  | still (depth : Nat)
  | closed (pos : Nat)
  deriving DecidableEq, Repr

/-- Looks for the mark that closes the outermost of `depth` open ones. -/
def closingFrom (d : Delimiter) (s : Scan) (depth index : Nat) : Text → Closing
  | [] => .still depth
  | c :: t =>
    if s.isOutside c then
      if c = d.opening then closingFrom d (s.next c) (depth + 1) (index + 1) t
      else if c = d.closing then
        if depth ≤ 1 then .closed index
        else closingFrom d (s.next c) (depth - 1) (index + 1) t
      else closingFrom d (s.next c) depth (index + 1) t
    else closingFrom d (s.next c) depth (index + 1) t

def closingOf (d : Delimiter) (depth : Nat) (line : Text) : Closing :=
  closingFrom d Scan.start depth 0 line

theorem lt_length_of_closingFrom {d : Delimiter} {s : Scan} {depth index pos : Nat} {t : Text}
    (h : closingFrom d s depth index t = .closed pos) : index ≤ pos ∧ pos < index + t.length := by
  induction t generalizing s depth index with
  | nil => simp [closingFrom] at h
  | cons c t ih =>
    simp only [closingFrom] at h
    simp only [List.length_cons]
    split at h
    · split at h
      · have := ih h; omega
      · split at h
        · split at h
          · cases h; omega
          · have := ih h; omega
        · have := ih h; omega
    · have := ih h; omega

end Delimiter
end HeadJob
