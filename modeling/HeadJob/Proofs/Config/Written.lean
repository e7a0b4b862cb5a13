import HeadJob.Proofs.Config.Reader

/-!
Reading a body that was written line by line.

Each entry stands on a line of its own and the lines of sub-blocks follow.  An entry is read back
from its line if the line is not taken for something else, and the sub-blocks are read back if each
line either goes on in one or opens one.
-/

namespace HeadJob

open Delimiter (brackets braces)

/-- The line of the entry is read as the entry: it holds no comment, opens no sub-block, and the
value is complete. -/
structure Text.ReadsBack (key value : Text) : Prop where
  bare : (assignmentLine key value).stripComment = assignmentLine key value
  opens : (assignmentLine key value).opensSubBlock = false
  brackets : brackets.netChange value = 0
  braces : braces.netChange value = 0

instance (key value : Text) : Decidable (Text.ReadsBack key value) :=
  decidable_of_iff
    ((Text.assignmentLine key value).stripComment = Text.assignmentLine key value ∧
      (Text.assignmentLine key value).opensSubBlock = false ∧
      brackets.netChange value = 0 ∧ braces.netChange value = 0)
    ⟨fun ⟨h₁, h₂, h₃, h₄⟩ => ⟨h₁, h₂, h₃, h₄⟩, fun ⟨h₁, h₂, h₃, h₄⟩ => ⟨h₁, h₂, h₃, h₄⟩⟩

/-- An entry reads back if it was ever read from a line of its own. -/
theorem Text.readsBack_of_assignment? {t key value : Text} (ht : t.trim = t)
    (hbare : t.stripComment = t) (hopens : t.opensSubBlock = false)
    (hassign : t.assignment? = some (key, value)) (hbrackets : brackets.netChange value = 0)
    (hbraces : braces.netChange value = 0) : ReadsBack key value := by
  obtain ⟨-, -, -, -, -, b, c, hb, hc, rfl⟩ := exists_blanks_of_assignment? ht hassign
  have hline : assignmentLine key value = key ++ [' '] ++ '=' :: [' '] ++ value := by
    simp [assignmentLine]
  refine ⟨?_, ?_, hbrackets, hbraces⟩
  · rw [hline, stripComment_append_equals (by decide) (by decide)]
    exact (stripComment_append_equals hb hc key value).1 hbare
  · rwa [← opensSubBlock_append_equals hb hc]

def Text.seen (t : Text) : Text := t.stripComment.trim

theorem Text.ReadsBack.seen {key value : Text} (h : ReadsBack key value) (hk : key.IsKey)
    (hv : value.IsValue) : (assignmentLine key value).seen = assignmentLine key value := by
  rw [Text.seen, h.bare, trim_assignmentLine hk hv]

theorem Text.IsCarried.seen {t : Text} (h : t.IsCarried) : t.seen = t := by
  rw [Text.seen, h.bare, h.trim]

/-- The lines can be carried through from `depth` braces deep on, and end outside any sub-block. -/
def CarriedFrom : Nat → List Text → Prop
  | depth, [] => depth = 0
  | depth, t :: ts =>
    (depth = 0 → t.opensSubBlock = true) ∧ CarriedFrom (depth + braces.netChange t).toNat ts

instance CarriedFrom.decidable : (depth : Nat) → (ts : List Text) → Decidable (CarriedFrom depth ts)
  | depth, [] => inferInstanceAs (Decidable (depth = 0))
  | depth, t :: ts =>
    have := CarriedFrom.decidable (depth + braces.netChange t).toNat ts
    inferInstanceAs (Decidable (_ ∧ _))

/-- The warnings about sub-blocks that open in lines from line number `line` on. -/
def Warning.ofOpenings : (depth line : Nat) → List Text → List Warning
  | _, _, [] => []
  | depth, line, t :: ts =>
    let later := ofOpenings (depth + braces.netChange t).toNat (line + 1) ts
    if depth = 0 then nestedBlock line t :: later else later

namespace BodyReader

variable {r : BodyReader}

theorem feed_assignmentLine (hr : r.reading = .idle) {key value : Text} (hk : key.IsKey)
    (hv : value.IsValue) (h : Text.ReadsBack key value) (line : Nat) :
    r.feed line (Text.assignmentLine key value) = r.assign line key value := by
  have hne : Text.assignmentLine key value ≠ [] := by
    simp [Text.assignmentLine]
  rw [feed_of_idle hr hne,
    start_of_netChange h.opens (Text.assignment?_assignmentLine hk hv) h.brackets h.braces]

theorem feedAll_assignmentLines {es : List (Text × Text)} (hr : r.reading = .idle)
    (hkv : ∀ e ∈ es, e.1.IsKey ∧ e.2.IsValue) (h : ∀ e ∈ es, Text.ReadsBack e.1 e.2)
    (hnodup : ((r.settings.entries ++ es).map Prod.fst).Nodup) (line : Nat) :
    r.feedAll line (es.map fun e => Text.assignmentLine e.1 e.2) =
      { r with settings := es.foldl (fun m e => m.insert e.1 e.2) r.settings } := by
  induction es generalizing r line with
  | nil => rfl
  | cons e es ih =>
    obtain ⟨hk, hv⟩ := hkv e List.mem_cons_self
    have hnew : e.1 ∉ r.settings.keys := by
      rw [List.map_append, List.nodup_append] at hnodup
      exact fun hmem => hnodup.2.2 e.1 hmem e.1 (by simp) rfl
    have hentries := OrderedMap.entries_insert_of_notMem hnew e.2
    rw [List.map_cons, feedAll, Text.trim_assignmentLine hk hv,
      feed_assignmentLine hr hk hv (h e List.mem_cons_self), assign_of_notMem hnew,
      ih rfl (fun e' he' => hkv e' (List.mem_cons_of_mem e he'))
        (fun e' he' => h e' (List.mem_cons_of_mem e he'))
        (by rw [hentries]; simpa using hnodup)]
    rw [← hr, List.foldl_cons]

theorem feed_carried {depth : Nat} (hr : r.reading = .ofDepth depth) {t : Text} (hne : t ≠ [])
    (h : depth = 0 → t.opensSubBlock = true) (line : Nat) :
    r.feed line t =
      { r with
        nested := r.nested ++ [t]
        warnings := r.warnings ++ if depth = 0 then [.nestedBlock line t] else []
        reading := .ofDepth (depth + braces.netChange t) } := by
  unfold feed
  rw [if_neg hne, hr]
  by_cases hd : depth = 0
  · subst hd
    simp [Reading.ofDepth, start, h rfl, warn]
  · rw [Reading.ofDepth_of_pos (by omega)]
    simp [hd]

theorem feedAll_carried {depth : Nat} {ts : List Text} (h : CarriedFrom depth ts)
    (hr : r.reading = .ofDepth depth) (hts : ∀ t ∈ ts, t.IsCarried) (line : Nat) :
    r.feedAll line ts =
      { r with
        nested := r.nested ++ ts
        warnings := r.warnings ++ Warning.ofOpenings depth line ts
        reading := .idle } := by
  induction ts generalizing r depth line with
  | nil =>
    have hd : depth = 0 := h
    subst hd
    rw [show Reading.ofDepth ((0 : Nat) : Int) = .idle from rfl] at hr
    simp [feedAll, Warning.ofOpenings, ← hr]
  | cons t ts ih =>
    have ht := hts t List.mem_cons_self
    rw [feedAll, ht.trim, feed_carried hr ht.ne_nil h.1, Warning.ofOpenings,
      ih h.2 (Reading.ofDepth_toNat _).symm fun u hu => hts u (List.mem_cons_of_mem t hu)]
    split <;> simp

theorem feedAll_written {es : List (Text × Text)} {nested : List Text}
    (hnodup : (es.map Prod.fst).Nodup) (hkv : ∀ e ∈ es, e.1.IsKey ∧ e.2.IsValue)
    (hes : ∀ e ∈ es, Text.ReadsBack e.1 e.2) (hnested : ∀ t ∈ nested, t.IsCarried)
    (hcarried : CarriedFrom 0 nested) (line : Nat) :
    feedAll {} line (((es.map fun e => Text.assignmentLine e.1 e.2) ++ nested).map Text.seen) =
      { settings := OrderedMap.ofList es
        nested
        warnings := Warning.ofOpenings 0 (line + es.length) nested } := by
  have hseen : ((es.map fun e => Text.assignmentLine e.1 e.2) ++ nested).map Text.seen =
      (es.map fun e => Text.assignmentLine e.1 e.2) ++ nested := by
    rw [List.map_append, List.map_map]
    congr 1
    · exact List.map_congr_left fun e he => (hes e he).seen (hkv e he).1 (hkv e he).2
    · exact (List.map_congr_left fun t ht => (hnested t ht).seen).trans (List.map_id _)
  rw [hseen, feedAll_append, feedAll_assignmentLines (r := {}) rfl hkv hes hnodup,
    List.length_map, feedAll_carried hcarried rfl hnested]
  rfl

end BodyReader
end HeadJob
