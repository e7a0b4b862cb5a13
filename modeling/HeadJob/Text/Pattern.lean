import HeadJob.Text.Basic

/-!
Patterns, and the leftmost matches of a pattern that do not overlap.

A pattern reads from the front of a text only.  Finding, replacing and splitting are all views of
one cut of a text into matches and the characters between them.
-/

namespace HeadJob

/-- Reads a match off the front of a text: what was found, and how many characters it took, which
is one at least. -/
abbrev Pattern (α : Type) := Text → Option (α × Nat)

/-- A match, or a character that belongs to none. -/
inductive Piece (α : Type) where
  | char (c : Char)
  | hit (a : α)
  deriving DecidableEq, Repr

namespace Piece

def hit? {α : Type} : Piece α → Option α
  | char _ => none
  | hit a => some a

/-- The text of a piece, when a match stands for the text `f` gives it. -/
def text {α : Type} (f : α → Text) : Piece α → Text
  | char c => [c]
  | hit a => f a

/-- The texts between the matches, the empty ones included. -/
def between {α : Type} : List (Piece α) → List Text
  | [] => [[]]
  | hit _ :: ps => [] :: between ps
  | char c :: ps => Text.consLine c (between ps)

theorem between_ne_nil {α : Type} (ps : List (Piece α)) : between ps ≠ [] := by
  induction ps with
  | nil => simp [between]
  | cons p ps ih =>
    cases p with
    | hit a => simp [between]
    | char c =>
      cases h : between ps with
      | nil => exact absurd h ih
      | cons l ls => simp [between, h, Text.consLine]

end Piece

namespace Pattern

variable {α : Type}

/-- The pattern of a reader that returns the rest of the text. -/
def ofReader (read : Text → Option (α × Text)) : Pattern α := fun t =>
  (read t).map fun (a, rest) => (a, t.length - rest.length)

/-- One fixed text.  The empty text matches nowhere. -/
def exactly : Text → Pattern Unit
  | [], _ => none
  | c :: w, t => if (c :: w).isPrefixOf t then some ((), w.length + 1) else none

/-- Cuts a text at the matches, after leaving out `skip` characters that an earlier match took. -/
def cutFrom (p : Pattern α) : (skip : Nat) → Text → List (Piece α)
  | _, [] => []
  | skip + 1, _ :: t => cutFrom p skip t
  | 0, c :: t =>
    match p (c :: t) with
    | some (a, n) => .hit a :: cutFrom p (n - 1) t
    | none => .char c :: cutFrom p 0 t

def cut (p : Pattern α) (t : Text) : List (Piece α) := cutFrom p 0 t

def hits (p : Pattern α) (t : Text) : List α := (cut p t).filterMap Piece.hit?

def replace (p : Pattern α) (f : α → Text) (t : Text) : Text := (cut p t).flatMap (Piece.text f)

def split (p : Pattern α) (t : Text) : List Text := Piece.between (cut p t)

theorem cutFrom_eq_cut_drop (p : Pattern α) (n : Nat) (t : Text) :
    cutFrom p n t = cut p (t.drop n) := by
  induction t generalizing n with
  | nil => cases n <;> rfl
  | cons c t ih =>
    cases n with
    | zero => rfl
    | succ n => simpa [cutFrom] using ih n

/-- A cut goes on after the characters of its first match. -/
theorem cut_of_match {p : Pattern α} {t : Text} {a : α} {n : Nat} (ht : t ≠ []) (hn : 0 < n)
    (h : p t = some (a, n)) : cut p t = .hit a :: cut p (t.drop n) := by
  cases t with
  | nil => exact absurd rfl ht
  | cons c t =>
    obtain ⟨m, rfl⟩ : ∃ m, n = m + 1 := ⟨n - 1, by omega⟩
    simp only [cut, cutFrom, h, Nat.add_sub_cancel, List.drop_succ_cons]
    exact congrArg _ (cutFrom_eq_cut_drop p m t)

theorem cut_of_no_match {p : Pattern α} {c : Char} {t : Text} (h : p (c :: t) = none) :
    cut p (c :: t) = .char c :: cut p t := by
  simp [cut, cutFrom, h]

end Pattern

namespace Text

/-- The text with every occurrence of `old` replaced, leftmost first. -/
def replaceAll (old new : Text) (t : Text) : Text :=
  (Pattern.exactly old).replace (fun _ => new) t

def splitOn (sep t : Text) : List Text := (Pattern.exactly sep).split t

def occursIn (w : Text) : Text → Bool
  | [] => w.isEmpty
  | c :: t => w.isPrefixOf (c :: t) || occursIn w t

theorem occursIn_iff {w t : Text} : occursIn w t = true ↔ ∃ a b, t = a ++ w ++ b := by
  induction t with
  | nil =>
    simp only [occursIn, List.isEmpty_iff]
    constructor
    · rintro rfl
      exact ⟨[], [], rfl⟩
    · rintro ⟨a, b, h⟩
      simp only [List.nil_eq, List.append_eq_nil_iff] at h
      exact h.1.2
  | cons c t ih =>
    simp only [occursIn, Bool.or_eq_true, List.isPrefixOf_iff_prefix, ih]
    constructor
    · rintro (⟨b, h⟩ | ⟨a, b, rfl⟩)
      · exact ⟨[], b, by simpa using h.symm⟩
      · exact ⟨c :: a, b, rfl⟩
    · rintro ⟨a, b, h⟩
      cases a with
      | nil => exact .inl ⟨b, by simpa using h.symm⟩
      | cons d a =>
        injection h with _ h
        exact .inr ⟨a, b, by simpa using h⟩

/-- The rest of the text after `w`, which it starts with. -/
def dropPrefix? (w t : Text) : Option Text :=
  if w.isPrefixOf t then some (t.drop w.length) else none

/-- The text before `w`, which it ends with. -/
def dropSuffix? (w t : Text) : Option Text :=
  if w.isSuffixOf t then some (t.take (t.length - w.length)) else none

theorem dropPrefix?_eq_some_iff {w t r : Text} : dropPrefix? w t = some r ↔ t = w ++ r := by
  constructor
  · intro h
    simp only [dropPrefix?, List.isPrefixOf_iff_prefix] at h
    split at h
    · rename_i hp
      obtain ⟨s, rfl⟩ := hp
      simpa using h
    · cases h
  · rintro rfl
    simp [dropPrefix?]

theorem dropSuffix?_eq_some_iff {w t r : Text} : dropSuffix? w t = some r ↔ t = r ++ w := by
  constructor
  · intro h
    simp only [dropSuffix?, List.isSuffixOf_iff_suffix] at h
    split at h
    · rename_i hs
      obtain ⟨s, rfl⟩ := hs
      simpa using h
    · cases h
  · rintro rfl
    simp [dropSuffix?]

end Text
end HeadJob
