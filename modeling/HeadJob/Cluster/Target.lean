import HeadJob.Text.Basic

/-!
Targets of requests.

A target is a path, which a question mark and a query may follow.  Some characters have to be escaped
in a target, and one with such a character is refused.  What follows a number sign is no part of it.
-/

namespace HeadJob
namespace Cluster

inductive TargetFault where
  | badCharacter
  | tooLong
  deriving DecidableEq, Repr

def TargetFault.message : TargetFault → String
  | badCharacter => "invalid uri character"
  | tooLong => "uri too long"

namespace Target

/-- Whether a character may stand in a path as it is.  Controls, blanks, `<`, `>` and the backquote
may not, and `?` and `#` end the path. -/
def isPathChar (c : Char) : Bool :=
  let n := c.toNat
  n == 0x21 || n == 0x22 || (0x24 ≤ n && n ≤ 0x3B) || n == 0x3D || (0x40 ≤ n && n ≤ 0x5F) ||
    0x61 ≤ n

/-- Whether a character may stand in a query as it is. -/
def isQueryChar (c : Char) : Bool :=
  let n := c.toNat
  n == 0x21 || (0x24 ≤ n && n ≤ 0x3B) || n == 0x3D || 0x3F ≤ n

def maxSize : Nat := 65534

def pathOf : Text → Except TargetFault Text
  | [] => .ok []
  | c :: t =>
    if c = '?' then
      if (t.takeWhile (· ≠ '#')).all isQueryChar then .ok [] else .error .badCharacter
    else if c = '#' then .ok []
    else if isPathChar c then (pathOf t).map (c :: ·)
    else .error .badCharacter

/-- The path of a target.  A question mark is put behind the target, in case a query follows. -/
def path (target : String) : Except TargetFault String :=
  if maxSize < target.utf8ByteSize + 1 then .error .tooLong
  else (pathOf (target.toList ++ ['?'])).map String.ofList

theorem pathOf_append {t : Text} (h : t.all isPathChar = true) :
    pathOf (t ++ ['?']) = .ok t := by
  induction t with
  | nil => rfl
  | cons c t ih =>
    simp only [List.all_cons, Bool.and_eq_true] at h
    have hq : c ≠ '?' := by rintro rfl; exact absurd h.1 (by decide)
    have hs : c ≠ '#' := by rintro rfl; exact absurd h.1 (by decide)
    simp [pathOf, hq, hs, h.1, ih h.2, Except.map]

theorem path_of_all {target : String} (h : target.toList.all isPathChar = true)
    (size : target.utf8ByteSize < maxSize) : path target = .ok target := by
  simp only [path, pathOf_append h, Except.map]
  rw [if_neg (by omega), String.ofList_toList]

end Target
end Cluster
end HeadJob
