import HeadJob.Config.Volume

/-!
The list literal of the key `pod`, as the texts of its entries.

An entry that is no volume record is kept as it is.  Blanks between brackets, and around the commas
that part entries, are dropped before the list is taken apart, wherever in the literal they stand.
-/

namespace HeadJob

/-- The entries of a list literal, without their brackets. -/
structure PodList where
  entries : List Text
  deriving DecidableEq, Repr

namespace PodList

/-- Two brackets with nothing but blanks between them. -/
def bracketPair (bracket : Char) : Pattern Unit := .ofReader fun t =>
  match t with
  | [] => none
  | c :: t => if c = bracket then (Volume.dropChar? bracket t).map fun rest => ((), rest) else none

/-- A comma between a closing and an opening bracket. -/
def separator : Pattern Unit := .ofReader fun t =>
  match t with
  | ']' :: t => do
    let t ← Volume.dropChar? ',' t
    let t ← Volume.dropChar? '[' t
    some ((), t)
  | _ => none

def separatorText : Text := "],[".toList

/-- The literal with its brackets drawn together: opening ones first, then closing ones, then those
around commas. -/
def normalize (literal : Text) : Text :=
  let opened := (bracketPair '[').replace (fun _ => ['[', '[']) literal
  let closed := (bracketPair ']').replace (fun _ => [']', ']']) opened
  separator.replace (fun _ => separatorText) closed

/-- The text between `opening` and `closing`, which must both be there. -/
def between? (opening closing t : Text) : Option Text := do
  Text.dropSuffix? closing (← Text.dropPrefix? opening t)

/-- The inside of a list literal: between two pairs of brackets, or one, or none. -/
def inside (literal : Text) : Text :=
  let t := (normalize literal).trim
  match between? ['[', '['] [']', ']'] t with
  | some inner => inner
  | none => (between? ['['] [']'] t).getD t

/-- Reads a list literal.  A blank one has no entries, and a record without a list around it is one
entry. -/
def parse (literal : Text) : PodList :=
  let inner := inside literal
  if inner.isAllBlank then ⟨[]⟩ else ⟨Text.splitOn separatorText inner⟩

def toLiteral (l : PodList) : Text :=
  if l.entries = [] then ['[', ']']
  else ['[', '['] ++ Text.join separatorText l.entries ++ [']', ']']

/-- Whether an entry holds the volume: it names both parts the way entries are written, or it is a
record of the volume in another spelling. -/
def holds (l : PodList) (v : Volume) : Bool :=
  l.entries.any fun e =>
    (Text.occursIn v.claimField e && Text.occursIn v.pathField e) ||
      (Volume.records ('[' :: e ++ [']'])).contains v

/-- Appends a volume that the list does not hold. -/
def merge (l : PodList) (v : Volume) : PodList :=
  if l.holds v then l else ⟨l.entries ++ [v.entry]⟩

end PodList
end HeadJob
