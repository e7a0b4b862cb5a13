import HeadJob.Text.Basic

/-!
Places in a text, counted in bytes of UTF-8.

A character takes one byte or more, so a place in bytes parts a text in one way, if it does at all: it
may lie inside of a character or behind the end.
-/

namespace HeadJob

/-- What is wrong with a place: it lies in front of another one that it is measured from, behind the
end, or inside of a character. -/
inductive Misplaced where
  | before
  | beyond
  | inside
  deriving DecidableEq, Repr

namespace Text

@[simp] theorem utf8Size_cons (c : Char) (t : Text) : utf8Size (c :: t) = c.utf8Size + utf8Size t := rfl

theorem utf8Size_append (a b : Text) : utf8Size (a ++ b) = utf8Size a + utf8Size b := by
  induction a with
  | nil => exact (Nat.zero_add _).symm
  | cons c a ih => rw [List.cons_append, utf8Size_cons, utf8Size_cons, ih, Nat.add_assoc]

theorem eq_nil_of_utf8Size_eq_zero {t : Text} (h : utf8Size t = 0) : t = [] := by
  cases t with
  | nil => rfl
  | cons c t =>
    have hpos := c.utf8Size_pos
    rw [utf8Size_cons] at h
    omega

/-- What stands before a byte, if the byte parts the text at all. -/
theorem eq_of_utf8Size_eq {a a' b b' : Text} (h : a ++ b = a' ++ b')
    (hsize : utf8Size a = utf8Size a') : a = a' := by
  rcases List.append_eq_append_iff.1 h with ⟨x, rfl, -⟩ | ⟨x, rfl, -⟩
  · rw [utf8Size_append] at hsize
    rw [eq_nil_of_utf8Size_eq_zero (t := x) (by omega), List.append_nil]
  · rw [utf8Size_append] at hsize
    rw [eq_nil_of_utf8Size_eq_zero (t := x) (by omega), List.append_nil]

/-! ## Distances and cuts -/

/-- How many bytes a place lies behind another one. -/
def bytesFrom (start place : Nat) : Except Misplaced Nat :=
  if start ≤ place then .ok (place - start) else .error .before

theorem bytesFrom_eq_ok_iff {start place n : Nat} :
    bytesFrom start place = .ok n ↔ place = start + n := by
  unfold bytesFrom
  split
  · rw [Except.ok.injEq]
    omega
  · refine iff_of_false (fun h => nomatch h) ?_
    omega

/-- The two parts of a text in front of a byte and from it on. -/
def cutAt (n : Nat) : Text → Except Misplaced (Text × Text)
  | [] => if n = 0 then .ok ([], []) else .error .beyond
  | c :: t =>
    if n = 0 then .ok ([], c :: t)
    else if n < c.utf8Size then .error .inside
    else match cutAt (n - c.utf8Size) t with
      | .ok parts => .ok (c :: parts.1, parts.2)
      | .error e => .error e

theorem cutAt_utf8Size (a b : Text) : cutAt (utf8Size a) (a ++ b) = .ok (a, b) := by
  induction a with
  | nil => cases b <;> rfl
  | cons c a ih =>
    have hpos := c.utf8Size_pos
    rw [List.cons_append, cutAt, utf8Size_cons, if_neg (by omega), if_neg (by omega),
      Nat.add_sub_cancel_left, ih]

theorem eq_append_of_cutAt_eq_ok {n : Nat} {t a b : Text} (h : cutAt n t = .ok (a, b)) :
    t = a ++ b ∧ n = utf8Size a := by
  induction t generalizing n a with
  | nil =>
    rw [cutAt] at h
    split at h
    · next hn =>
      cases h
      exact ⟨rfl, hn⟩
    · cases h
  | cons c t ih =>
    rw [cutAt] at h
    split at h
    · next hn =>
      cases h
      exact ⟨rfl, hn⟩
    · split at h
      · cases h
      · split at h
        · next parts hparts =>
          cases h
          obtain ⟨ht, hsize⟩ := ih hparts
          refine ⟨by rw [ht]; rfl, ?_⟩
          rw [utf8Size_cons, ← hsize]
          omega
        · cases h

/-- A text can be cut where a part of it ends, and nowhere else. -/
theorem cutAt_eq_ok_iff {n : Nat} {t a b : Text} :
    cutAt n t = .ok (a, b) ↔ t = a ++ b ∧ n = utf8Size a := by
  refine ⟨eq_append_of_cutAt_eq_ok, ?_⟩
  rintro ⟨rfl, rfl⟩
  exact cutAt_utf8Size a b

example : cutAt 1 ['é'] = .error .inside := rfl

/-- The lines in front of a line and from it on. -/
def cutAtLine (n : Nat) (ls : List Text) : Except Misplaced (List Text × List Text) :=
  if n ≤ ls.length then .ok (ls.take n, ls.drop n) else .error .beyond

theorem cutAtLine_of_le {n : Nat} {ls : List Text} (h : n ≤ ls.length) :
    cutAtLine n ls = .ok (ls.take n, ls.drop n) := if_pos h

end Text
end HeadJob
