import HeadJob.Text.Pattern

/-!
Volumes: a persistent volume claim and the path it is mounted at.
-/

namespace HeadJob

structure Volume where
  claim : Text
  path : Text
  deriving DecidableEq, Repr

namespace Volume

/-- A volume as it is given on the command line, `claim:path`, where neither part is empty or holds
a colon. -/
def ofArgument? (argument : Text) : Option Volume :=
  match Text.splitOn [':'] argument with
  | [claim, path] => if claim = [] ∨ path = [] then none else some ⟨claim, path⟩
  | _ => none

def argument (v : Volume) : Text := v.claim ++ ':' :: v.path

def claimField (v : Volume) : Text := "volumeClaim:'".toList ++ v.claim ++ ['\'']

def pathField (v : Volume) : Text := "mountPath:'".toList ++ v.path ++ ['\'']

/-- The volume as an entry of a list literal, without the brackets. -/
def entry (v : Volume) : Text := v.claimField ++ ", ".toList ++ v.pathField

/-! ## Records -/

/-- Drops blanks and then the character `c`. -/
def dropChar? (c : Char) (t : Text) : Option Text :=
  match t.trimStart with
  | [] => none
  | d :: rest => if d = c then some rest else none

/-- Drops a word in any mixture of cases.  The word is given in lower case. -/
def dropWord? : Text → Text → Option Text
  | [], t => some t
  | _ :: _, [] => none
  | c :: w, d :: t => if d.toLower = c then dropWord? w t else none

def isQuoteMark (c : Char) : Bool := c == '\'' || c == '"'

/-- Reads a string that is not empty and holds no quote mark, after blanks.  It may open and close
with different marks. -/
def readString? (t : Text) : Option (Text × Text) :=
  match t.trimStart with
  | [] => none
  | q :: rest =>
    if isQuoteMark q then
      match rest.takeWhile (!isQuoteMark ·), rest.dropWhile (!isQuoteMark ·) with
      | c :: s, _ :: rest => some (c :: s, rest)
      | _, _ => none
    else none

/-- Reads `name: 'string'` after blanks, where the name is given in lower case. -/
def readField? (name t : Text) : Option (Text × Text) := do
  let t ← dropWord? name t.trimStart
  let t ← dropChar? ':' t
  readString? t

/-- A record `[volumeClaim: 'claim', mountPath: 'path']`, whose names may be in any case and whose
parts may stand apart. -/
def record : Pattern Volume := .ofReader fun t =>
  match t with
  | '[' :: t => do
    let (claim, t) ← readField? "volumeclaim".toList t
    let t ← dropChar? ',' t
    let (path, t) ← readField? "mountpath".toList t
    let t ← dropChar? ']' t
    some (⟨claim, path⟩, t)
  | _ => none

def records (t : Text) : List Volume := record.hits t

end Volume
end HeadJob
