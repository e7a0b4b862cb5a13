/-!
Text as a list of characters, and the blanks around it.

Configuration is read character by character, so it is held as the list of its characters and
every scanner is a recursion on that list.  Strings appear where text leaves or enters the program.
-/

namespace HeadJob

abbrev Text := List Char

namespace Text

/-- The characters with the Unicode property `White_Space`. -/
def isBlank (c : Char) : Bool :=
  let n := c.toNat
  (9 ≤ n && n ≤ 13) || n == 0x20 || n == 0x85 || n == 0xA0 || n == 0x1680 ||
    (0x2000 ≤ n && n ≤ 0x200A) || n == 0x2028 || n == 0x2029 || n == 0x202F || n == 0x205F ||
    n == 0x3000

def trimStart (t : Text) : Text := t.dropWhile isBlank

def trimEnd (t : Text) : Text := (t.reverse.dropWhile isBlank).reverse

def trim (t : Text) : Text := trimEnd (trimStart t)

def isAllBlank (t : Text) : Bool := t.all isBlank

/-! ## What trimming keeps -/

theorem trimStart_of_isAllBlank {t : Text} (h : isAllBlank t = true) : trimStart t = [] := by
  induction t with
  | nil => rfl
  | cons c t ih =>
    simp only [isAllBlank, List.all_cons, Bool.and_eq_true] at h
    simpa [trimStart, List.dropWhile_cons, h.1] using ih h.2

theorem trim_of_isAllBlank {t : Text} (h : isAllBlank t = true) : trim t = [] := by
  simp [trim, trimStart_of_isAllBlank h, trimEnd]

/-- Trimming at the front removes a run of blanks and nothing else. -/
theorem exists_blanks_append_trimStart (t : Text) :
    ∃ s, isAllBlank s = true ∧ s ++ trimStart t = t := by
  induction t with
  | nil => exact ⟨[], rfl, rfl⟩
  | cons c t ih =>
    by_cases h : isBlank c = true
    · obtain ⟨s, hs, ht⟩ := ih
      refine ⟨c :: s, by simpa [isAllBlank, h] using hs, ?_⟩
      simpa [trimStart, List.dropWhile_cons, h] using ht
    · exact ⟨[], rfl, by simp [trimStart, h]⟩

theorem isAllBlank_reverse (t : Text) : isAllBlank t.reverse = isAllBlank t := by
  simp [isAllBlank]

/-- Trimming at the end removes a run of blanks and nothing else. -/
theorem exists_trimEnd_append_blanks (t : Text) :
    ∃ s, isAllBlank s = true ∧ trimEnd t ++ s = t := by
  obtain ⟨s, hs, ht⟩ := exists_blanks_append_trimStart t.reverse
  refine ⟨s.reverse, by rw [isAllBlank_reverse, hs], ?_⟩
  have h := congrArg List.reverse ht
  simpa [trimEnd, trimStart] using h

theorem trimStart_eq_nil_iff {t : Text} : trimStart t = [] ↔ isAllBlank t = true := by
  constructor
  · intro h
    obtain ⟨s, hs, ht⟩ := exists_blanks_append_trimStart t
    rw [h, List.append_nil] at ht
    exact ht ▸ hs
  · exact trimStart_of_isAllBlank

theorem isAllBlank_append (s t : Text) :
    isAllBlank (s ++ t) = (isAllBlank s && isAllBlank t) := by
  simp [isAllBlank]

theorem trim_eq_nil_iff {t : Text} : trim t = [] ↔ isAllBlank t = true := by
  refine ⟨fun h => ?_, trim_of_isAllBlank⟩
  obtain ⟨s, hs, ht⟩ := exists_trimEnd_append_blanks (trimStart t)
  rw [show trimEnd (trimStart t) = [] from h, List.nil_append] at ht
  obtain ⟨p, hp, hq⟩ := exists_blanks_append_trimStart t
  rw [← hq, ← ht, isAllBlank_append, hp, hs]
  rfl

/-! ## Lines -/

/-- Puts a character in front of the first line, which it starts if there is none. -/
def consLine (c : Char) : List Text → List Text
  | [] => [[c]]
  | l :: ls => (c :: l) :: ls

/-- The lines of a text.  A line ends at a line feed, or at a carriage return and a line feed, and
neither belongs to it.  The last line need not be ended, and an ended last line is followed by
no further one. -/
def lines : Text → List Text
  | [] => []
  | '\r' :: '\n' :: t => [] :: lines t
  | '\n' :: t => [] :: lines t
  | c :: t => consLine c (lines t)

def join (sep : Text) (ls : List Text) : Text := sep.intercalate ls

def unlines (ls : List Text) : Text := ls.flatMap (· ++ ['\n'])

def utf8Size (t : Text) : Nat := t.foldr (fun c n => c.utf8Size + n) 0

end Text
end HeadJob
