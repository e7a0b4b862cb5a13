import HeadJob.Json.Basic

/-!
Places in a JSON value, and putting another value in a place.

A place is told by the steps to it.  Putting a value there needs the place to be there, and leaves all
that is beside it as it was.
-/

namespace HeadJob
namespace Json

/-- A step from a value to one of its parts. -/
inductive Step where
  | member (name : String)
  | item (index : Nat)
  deriving DecidableEq, Repr

def at? : List Step → Json → Option Json
  | [], v => some v
  | .member name :: place, v => (v.get? name).bind (at? place)
  | .item i :: place, .array items => items[i]?.bind (at? place)
  | .item _ :: _, _ => none

/-- Changes the first member of a name. -/
def changeMember? (name : String) (f : Json → Option Json) :
    List (String × Json) → Option (List (String × Json))
  | [] => none
  | (n, v) :: members =>
    if n = name then (f v).map fun v => (n, v) :: members
    else (changeMember? name f members).map ((n, v) :: ·)

/-- The value with `new` in a place that it has, and all else as it is. -/
def replaceAt? (new : Json) : List Step → Json → Option Json
  | [], _ => some new
  | .member name :: place, .object members =>
    (changeMember? name (replaceAt? new place) members).map object
  | .item i :: place, .array items =>
    items[i]?.bind fun old => (replaceAt? new place old).map fun v => array (items.set i v)
  | _ :: _, _ => none

theorem get?_changeMember? {name : String} {f : Json → Option Json}
    {members members' : List (String × Json)} (h : changeMember? name f members = some members') :
    ∃ old v, f old = some v ∧ (object members').get? name = some v := by
  induction members generalizing members' with
  | nil => cases h
  | cons m members ih =>
    obtain ⟨n, v⟩ := m
    rw [changeMember?] at h
    split at h
    · next hn =>
      obtain ⟨w, hw, rfl⟩ := Option.map_eq_some_iff.1 h
      exact ⟨v, w, hw, by simp [get?, hn]⟩
    · next hn =>
      obtain ⟨rest, hrest, rfl⟩ := Option.map_eq_some_iff.1 h
      obtain ⟨old, w, hw, hget⟩ := ih hrest
      refine ⟨old, w, hw, ?_⟩
      rw [get?, List.find?_cons_of_neg (by simpa using hn)]
      exact hget

/-- What was put in a place is found there. -/
theorem at?_replaceAt? {new v w : Json} {place : List Step} (h : replaceAt? new place v = some w) :
    at? place w = some new := by
  induction place generalizing v w with
  | nil => exact h.symm
  | cons step place ih =>
    cases step with
    | member name =>
      cases v with
      | object members =>
        obtain ⟨members', hchange, rfl⟩ := Option.map_eq_some_iff.1 h
        obtain ⟨old, part, hpart, hget⟩ := get?_changeMember? hchange
        rw [at?, hget, Option.bind_some]
        exact ih hpart
      | _ => cases h
    | item i =>
      cases v with
      | array items =>
        obtain ⟨old, hold, hreplace⟩ := Option.bind_eq_some_iff.1 h
        obtain ⟨part, hpart, rfl⟩ := Option.map_eq_some_iff.1 hreplace
        obtain ⟨hi, -⟩ := List.getElem?_eq_some_iff.1 hold
        rw [at?, List.getElem?_set_self hi, Option.bind_some]
        exact ih hpart
      | _ => cases h

end Json
end HeadJob
