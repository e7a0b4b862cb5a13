import Mathlib.Data.Nat.Find
import HeadJob.Proofs.Config.Alike

/-!
The first header at the top level.

Where a header stands can be said of the lines alone: no brace is open before it, and its brace follows
the name on the same line, or opens a later line with nothing but blanks and comments between them.  A
search knows no more than how many braces are open and which line a name waits on, but from these it
tells every header, and so it ends on the one whose brace comes first.
-/

namespace HeadJob
namespace Header

open Text (isAllBlank)

variable {name : Text} {lines : List Text}

/-! ## Where a header stands -/

/-- How many braces are open before line `i`.  Closing more than are open counts for nothing. -/
def depthBefore (lines : List Text) (i : Nat) : Nat := (lines.take i).foldl clampedDepth 0

/-- Line `start` is at the top level and holds the name alone, and the lines after it are blank up to
`line`.  Comments do not count. -/
structure WaitsFrom (name : Text) (lines : List Text) (start line : Nat) : Prop where
  lt : start < line
  top : depthBefore lines start = 0
  name : ∃ raw, lines[start]? = some raw ∧ raw.stripComment.trim = name
  blank : ∀ i raw, start < i → i < line → lines[i]? = some raw → isAllBlank raw.stripComment = true

/-- A header at the top level begins on line `start`, and its brace is on line `line`. -/
inductive StandsAt (name : Text) (lines : List Text) : (start line : Nat) → Prop
  | onOneLine {i : Nat} {raw a b t : Text} (hraw : lines[i]? = some raw)
      (top : depthBefore lines i = 0) (ha : isAllBlank a = true) (hb : isAllBlank b = true)
      (hline : raw.stripComment = a ++ name ++ b ++ '{' :: t) : StandsAt name lines i i
  | overLines {start line : Nat} {raw : Text} (hwaits : WaitsFrom name lines start line)
      (hraw : lines[line]? = some raw) (hbrace : raw.stripComment.trim.head? = some '{') :
      StandsAt name lines start line

/-- No header has its brace on an earlier line. -/
structure IsFirst (name : Text) (lines : List Text) (start line : Nat) : Prop where
  stands : StandsAt name lines start line
  least : ∀ start' line', StandsAt name lines start' line' → line ≤ line'

theorem depthBefore_succ {i : Nat} {raw : Text} (h : lines[i]? = some raw) :
    depthBefore lines (i + 1) = clampedDepth (depthBefore lines i) raw := by
  rw [depthBefore, List.take_add_one, h, Option.toList_some, List.foldl_append]
  rfl

/-! ## Headers on one line -/

theorem exists_width?_iff (hname : ∀ c ∈ name, Placeholder.isKeyChar c = true) {line : Text} :
    (∃ width, width? name line = some width) ↔
      ∃ a b t, isAllBlank a = true ∧ isAllBlank b = true ∧ line = a ++ name ++ b ++ '{' :: t := by
  constructor
  · rintro ⟨width, hwidth⟩
    obtain ⟨_, ⟨a, b, ha, hb, rfl⟩, ⟨t, ht⟩, -⟩ := (width?_eq_some_iff hname).1 hwidth
    refine ⟨a, b, t, ha, hb, ?_⟩
    rw [← ht, List.append_assoc _ ['{']]
    rfl
  · rintro ⟨a, b, t, ha, hb, rfl⟩
    refine ⟨_, (width?_eq_some_iff hname).2 ⟨a ++ name ++ b ++ ['{'], ⟨a, b, ha, hb, rfl⟩, ?_, rfl⟩⟩
    exact ⟨t, by simp⟩

theorem exists_width?_nil_iff {line : Text} :
    (∃ width, width? [] line = some width) ↔ line.trim.head? = some '{' := by
  rw [Text.head?_trim]
  constructor
  · rintro ⟨width, hwidth⟩
    obtain ⟨rest, t, hrest, ht, -⟩ := width?_eq_some_iff_exists.1 hwidth
    rw [List.nil_append] at hrest
    rw [← hrest, Text.trimStart_trimStart] at ht
    rw [ht]
    rfl
  · intro h
    obtain ⟨t, ht⟩ := List.head?_eq_some_iff.1 h
    refine ⟨_, width?_eq_some_iff_exists.2 ⟨_, t, (List.nil_append _).symm, ?_, rfl⟩⟩
    rw [Text.trimStart_trimStart, ht]

/-- A name stands in front of its brace, so the same line cannot begin with the brace of an earlier
name. -/
theorem width?_nil_eq_none (hname : ∀ c ∈ name, Placeholder.isKeyChar c = true) (hne : name ≠ [])
    {line : Text} {width : Nat} (h : width? name line = some width) : width? [] line = none := by
  obtain ⟨a, b, t, ha, -, rfl⟩ := (exists_width?_iff hname).1 ⟨width, h⟩
  refine Option.eq_none_iff_forall_ne_some.2 fun width hwidth => ?_
  have hhead := exists_width?_nil_iff.1 ⟨width, hwidth⟩
  cases name with
  | nil => exact hne rfl
  | cons c name =>
    have hkey := hname c List.mem_cons_self
    have hc : Text.isBlank c = false := Placeholder.isBlank_of_isKeyChar hkey
    rw [Text.head?_trim, List.append_assoc, List.append_assoc, Text.trimStart_append_of_isAllBlank ha,
      List.cons_append, Text.trimStart_cons hc, List.head?_cons, Option.some_inj] at hhead
    subst hhead
    exact absurd hkey (by decide)

/-! ## What a search knows of the lines it has seen -/

theorem netChange_of_waits (hname : ∀ c ∈ name, Placeholder.isKeyChar c = true) {line : Text}
    (h : line.trim = name ∨ isAllBlank line = true) : Delimiter.braces.netChange line = 0 := by
  by_cases hline : line = []
  · rw [hline]
    rfl
  · have hwaiting : (waitingAfter name (some 0) 0 line).isSome = true := by
      unfold waitingAfter
      split
      · rfl
      · next hblank =>
        rw [if_pos ⟨h.resolve_right fun hb => hblank ⟨rfl, hb⟩, hline⟩]
        rfl
    exact netChange_of_waitingAfter hname hwaiting

namespace WaitsFrom

variable {start line : Nat} {raw : Text}

theorem succ_iff (hraw : lines[line]? = some raw) :
    WaitsFrom name lines start (line + 1) ↔
      WaitsFrom name lines start line ∧ isAllBlank raw.stripComment = true ∨
        start = line ∧ depthBefore lines line = 0 ∧ raw.stripComment.trim = name := by
  constructor
  · intro h
    obtain ⟨first, hfirst, htrim⟩ := h.name
    by_cases hstart : start = line
    · subst hstart
      rw [hraw, Option.some_inj] at hfirst
      subst hfirst
      exact .inr ⟨rfl, h.top, htrim⟩
    · have hlt : start < line := by have := h.lt; omega
      refine .inl ⟨⟨hlt, h.top, ⟨first, hfirst, htrim⟩, fun i raw' hi hi' => ?_⟩, ?_⟩
      · exact h.blank i raw' hi (by omega)
      · exact h.blank line raw hlt (Nat.lt_succ_self line) hraw
  · rintro (⟨h, hblank⟩ | ⟨rfl, htop, htrim⟩)
    · refine ⟨by have := h.lt; omega, h.top, h.name, fun i raw' hi hi' hraw' => ?_⟩
      by_cases hline : i = line
      · rw [hline, hraw, Option.some_inj] at hraw'
        rw [← hraw', hblank]
      · exact h.blank i raw' hi (by omega) hraw'
    · exact ⟨Nat.lt_succ_self _, htop, ⟨raw, hraw, htrim⟩, fun i _ hi hi' => by omega⟩

/-- Neither the name nor the blank lines after it hold braces. -/
theorem depthBefore_eq_zero (hname : ∀ c ∈ name, Placeholder.isKeyChar c = true)
    (h : WaitsFrom name lines start line) (hline : line ≤ lines.length) :
    depthBefore lines line = 0 := by
  induction line with
  | zero => exact absurd h.lt (Nat.not_lt_zero start)
  | succ line ih =>
    have hraw : lines[line]? = some lines[line] := List.getElem?_eq_getElem hline
    rw [depthBefore_succ hraw, clampedDepth]
    rcases (succ_iff hraw).1 h with ⟨hwaits, hblank⟩ | ⟨-, htop, htrim⟩
    · rw [ih hwaits (by omega), netChange_of_waits hname (.inr hblank)]
      rfl
    · rw [htop, netChange_of_waits hname (.inl htrim)]
      rfl

end WaitsFrom

theorem waitingAfter_eq_some_iff (hne : name ≠ []) {waiting : Option Nat} {index start : Nat}
    {line : Text} :
    waitingAfter name waiting index line = some start ↔
      waiting = some start ∧ isAllBlank line = true ∨ start = index ∧ line.trim = name := by
  unfold waitingAfter
  rw [if_congr (trim_eq_and_ne_nil_iff hne line) rfl rfl]
  split
  · next h =>
    have htrim : line.trim ≠ name := by
      rw [Text.trim_of_isAllBlank h.2]
      exact Ne.symm hne
    simp [h.2, htrim]
  · next h =>
    have hwaiting : ¬(waiting = some start ∧ isAllBlank line = true) := by
      rintro ⟨rfl, hblank⟩
      exact h ⟨rfl, hblank⟩
    split
    · next htrim => rw [or_iff_right hwaiting, and_iff_left htrim, Option.some_inj, eq_comm]
    · next htrim => exact iff_of_false (fun h => nomatch h) (not_or.2 ⟨hwaiting, fun h => htrim h.2⟩)

theorem exists_ending?_iff (hname : ∀ c ∈ name, Placeholder.isKeyChar c = true) (hne : name ≠ [])
    {waiting : Option Nat} {index start : Nat} {line : Text} :
    (∃ width, ending? name waiting index line = some ⟨start, index, width⟩) ↔
      waiting = some start ∧ (∃ width, width? [] line = some width) ∨
        start = index ∧ ∃ width, width? name line = some width := by
  unfold ending?
  constructor
  · rintro ⟨width, h⟩
    split at h
    · next hwidth =>
      cases h
      exact .inl ⟨rfl, width, hwidth⟩
    · obtain ⟨width', hwidth, h⟩ := Option.map_eq_some_iff.1 h
      cases h
      exact .inr ⟨rfl, width, hwidth⟩
  · rintro (⟨rfl, width, hwidth⟩ | ⟨rfl, width, hwidth⟩)
    · exact ⟨width, by rw [hwidth]⟩
    · refine ⟨width, ?_⟩
      rw [width?_nil_eq_none hname hne hwidth, hwidth]
      cases waiting <;> rfl

namespace Search

/-- The search stands before line `i` and knows what the lines before it say. -/
structure Knows (name : Text) (lines : List Text) (i : Nat) (s : Search) : Prop where
  depth : s.depth = depthBefore lines i
  waiting : ∀ start, s.waiting = some start ↔ WaitsFrom name lines start i

namespace Knows

variable {i : Nat} {s : Search} {raw : Text}

theorem start : Knows name lines 0 {} where
  depth := rfl
  waiting := fun start =>
    iff_of_false (fun h => nomatch h) fun h : WaitsFrom name lines start 0 => nomatch h.lt

theorem next (hname : ∀ c ∈ name, Placeholder.isKeyChar c = true) (hne : name ≠ [])
    (h : Knows name lines i s) (hraw : lines[i]? = some raw) :
    Knows name lines (i + 1) (s.next name i raw.stripComment) where
  depth := by rw [depth_next hname, h.depth, depthBefore_succ hraw]
  waiting := by
    intro start
    have hi := (List.getElem?_eq_some_iff.1 hraw).1
    rw [waiting_next, WaitsFrom.succ_iff hraw, ← h.waiting, ← h.depth]
    split
    · next hdepth => simp [waitingAfter_eq_some_iff hne, hdepth]
    · next hdepth =>
      -- a name waits at the top level only
      refine iff_of_false (fun h => nomatch h) ?_
      rintro (⟨hwaits, -⟩ | ⟨-, htop, -⟩)
      · refine hdepth (h.depth.trans ?_)
        exact ((h.waiting start).1 hwaits).depthBefore_eq_zero hname (Nat.le_of_lt hi)
      · exact hdepth htop

theorem exists_header?_iff (hname : ∀ c ∈ name, Placeholder.isKeyChar c = true) (hne : name ≠ [])
    (h : Knows name lines i s) (hraw : lines[i]? = some raw) {start : Nat} :
    (∃ width, s.header? name i raw.stripComment = some ⟨start, i, width⟩) ↔
      StandsAt name lines start i := by
  have hi := (List.getElem?_eq_some_iff.1 hraw).1
  constructor
  · rintro ⟨width, hheader⟩
    unfold header? at hheader
    split at hheader
    · next hdepth =>
      rcases (exists_ending?_iff hname hne).1 ⟨width, hheader⟩ with ⟨hwaits, hbrace⟩ | ⟨rfl, hwidth⟩
      · exact .overLines ((h.waiting start).1 hwaits) hraw (exists_width?_nil_iff.1 hbrace)
      · obtain ⟨a, b, t, ha, hb, hline⟩ := (exists_width?_iff hname).1 hwidth
        exact .onOneLine hraw (h.depth.symm.trans hdepth) ha hb hline
    · cases hheader
  · intro hstands
    cases hstands with
    | onOneLine hraw' top ha hb hline =>
      rw [hraw, Option.some_inj] at hraw'
      subst hraw'
      rw [header?, if_pos (h.depth.trans top), exists_ending?_iff hname hne]
      exact .inr ⟨rfl, (exists_width?_iff hname).2 ⟨_, _, _, ha, hb, hline⟩⟩
    | overLines hwaits hraw' hbrace =>
      rw [hraw, Option.some_inj] at hraw'
      subst hraw'
      have htop := hwaits.depthBefore_eq_zero hname (Nat.le_of_lt hi)
      rw [header?, if_pos (h.depth.trans htop), exists_ending?_iff hname hne]
      exact .inl ⟨(h.waiting start).2 hwaits, exists_width?_nil_iff.2 hbrace⟩

end Knows
end Search

/-! ## The header that a search finds -/

theorem StandsAt.lt_length {start line : Nat} (h : StandsAt name lines start line) :
    line < lines.length := by
  cases h with
  | onOneLine hraw => exact (List.getElem?_eq_some_iff.1 hraw).1
  | overLines _ hraw => exact (List.getElem?_eq_some_iff.1 hraw).1

theorem exists_isFirst (h : ∃ start line, StandsAt name lines start line) :
    ∃ start line, IsFirst name lines start line := by
  classical
  have hline : ∃ line start, StandsAt name lines start line := exists_comm.1 h
  obtain ⟨start, hstands⟩ := Nat.find_spec hline
  exact ⟨start, _, hstands, fun start' line' h' => Nat.find_min' hline ⟨start', h'⟩⟩

/-- A search that has not come to the first header yet finds it. -/
theorem exists_find_of_isFirst (hname : ∀ c ∈ name, Placeholder.isKeyChar c = true)
    (hne : name ≠ []) {start line i : Nat} {s : Search} (h : IsFirst name lines start line)
    (hs : s.Knows name lines i) (hi : i ≤ line) :
    ∃ width, find name s.depth s.waiting i (lines.drop i) = some ⟨start, line, width⟩ := by
  induction hn : line - i generalizing i s with
  | zero =>
    obtain rfl : i = line := by omega
    have hlt := h.stands.lt_length
    obtain ⟨width, hwidth⟩ :=
      (hs.exists_header?_iff hname hne (List.getElem?_eq_getElem hlt)).2 h.stands
    exact ⟨width, by rw [List.drop_eq_getElem_cons hlt, Search.find_cons, hwidth, Option.some_or]⟩
  | succ n ih =>
    have hlt : i < lines.length := Nat.lt_of_le_of_lt hi h.stands.lt_length
    have hraw := List.getElem?_eq_getElem hlt
    have hnone : s.header? name i lines[i].stripComment = none := by
      refine Option.eq_none_iff_forall_ne_some.2 fun ⟨start', line', width⟩ hheader => ?_
      obtain rfl : line' = i := (width?_of_header? hheader).1
      have hleast := h.least _ _ ((hs.exists_header?_iff hname hne hraw).1 ⟨width, hheader⟩)
      omega
    rw [List.drop_eq_getElem_cons hlt, Search.find_cons, hnone, Option.none_or]
    exact ih (hs.next hname hne hraw) (by omega) (by omega)

theorem standsAt_of_find (hname : ∀ c ∈ name, Placeholder.isKeyChar c = true) (hne : name ≠ [])
    {i : Nat} {s : Search} (hs : s.Knows name lines i) {rest : List Text}
    (hrest : lines.drop i = rest) {header : Header}
    (h : find name s.depth s.waiting i rest = some header) :
    StandsAt name lines header.start header.line := by
  induction rest generalizing i s with
  | nil => cases h
  | cons raw rest ih =>
    have hraw : lines[i]? = some raw := by rw [← List.head?_drop, hrest, List.head?_cons]
    rw [Search.find_cons] at h
    cases hheader : s.header? name i raw.stripComment with
    | some found =>
      rw [hheader, Option.some_or, Option.some_inj] at h
      subst h
      obtain ⟨start, line, width⟩ := found
      obtain rfl : line = i := (width?_of_header? hheader).1
      exact (hs.exists_header?_iff hname hne hraw).1 ⟨width, hheader⟩
    | none =>
      rw [hheader, Option.none_or] at h
      have hdrop : lines.drop (i + 1) = rest := by
        rw [← List.drop_drop, hrest]
        rfl
      exact ih (hs.next hname hne hraw) hdrop h

/-- A search ends on the first of all headers. -/
theorem isFirst_of_find (hname : ∀ c ∈ name, Placeholder.isKeyChar c = true) (hne : name ≠ [])
    {header : Header} (h : find name 0 none 0 lines = some header) :
    IsFirst name lines header.start header.line := by
  have hstands := standsAt_of_find hname hne Search.Knows.start (List.drop_zero ..) h
  obtain ⟨start, line, hfirst⟩ := exists_isFirst ⟨_, _, hstands⟩
  obtain ⟨width, hfind⟩ :=
    exists_find_of_isFirst hname hne hfirst Search.Knows.start (Nat.zero_le line)
  rw [List.drop_zero, show find name 0 none 0 lines = _ from h, Option.some_inj] at hfind
  rw [hfind]
  exact hfirst

theorem find_eq_none_iff (hname : ∀ c ∈ name, Placeholder.isKeyChar c = true) (hne : name ≠ []) :
    find name 0 none 0 lines = none ↔ ¬∃ start line, StandsAt name lines start line := by
  constructor
  · intro hnone hstands
    obtain ⟨start, line, hfirst⟩ := exists_isFirst hstands
    obtain ⟨width, hfind⟩ :=
      exists_find_of_isFirst hname hne hfirst Search.Knows.start (Nat.zero_le line)
    rw [List.drop_zero, show find name 0 none 0 lines = _ from hnone] at hfind
    cases hfind
  · intro hnone
    refine Option.eq_none_iff_forall_ne_some.2 fun header hfind => hnone ?_
    exact ⟨_, _, (isFirst_of_find hname hne hfind).stands⟩

end Header

namespace Excerpt

open Header (StandsAt IsFirst)

variable {name : Text}

theorem ofLines_eq_error_iff {lines : List Text} :
    ofLines name lines = .error (.blockNotFound name) ↔ Header.find name 0 none 0 lines = none := by
  unfold ofLines
  split
  · next h => simp [h]
  · next h => simp [h]

/-- A block is found exactly if it has a header at the top level, and the first header is taken: the
lines before it stay in front of the block, and the body begins on the line of its brace. -/
theorem ofLines_first_header (hname : ∀ c ∈ name, Placeholder.isKeyChar c = true) (hne : name ≠ [])
    (lines : List Text) :
    (ofLines name lines = .error (.blockNotFound name) ↔
      ¬∃ start line, StandsAt name lines start line) ∧
    ∀ start line, IsFirst name lines start line →
      ∃ e, ofLines name lines = .ok e ∧ e.before = lines.take start ∧ e.body.firstLine = line + 1 := by
  refine ⟨ofLines_eq_error_iff.trans (Header.find_eq_none_iff hname hne), ?_⟩
  intro start line hfirst
  obtain ⟨width, hfind⟩ := Header.exists_find_of_isFirst hname hne hfirst
    Header.Search.Knows.start (Nat.zero_le line)
  have hfound : Header.find name 0 none 0 lines = some ⟨start, line, width⟩ := hfind
  refine ⟨atHeader lines ⟨start, line, width⟩, by rw [ofLines, hfound], ?_, ?_⟩
  · rw [atHeader_eq_around, before_around]
  · rw [atHeader_eq_around, body_around]

/-- The first `k8s` stands in another block, the second has no brace, and the third is the header. -/
theorem ofLines_first_header_of_nested :
    ∃ lines : List Text, (∀ c ∈ "k8s".toList, Placeholder.isKeyChar c = true) ∧
      "k8s".toList ≠ [] ∧ lines.length = 9 ∧ IsFirst "k8s".toList lines 5 7 ∧
      (ofLines "k8s".toList lines = .error (.blockNotFound "k8s".toList) ↔
        ¬∃ start line, StandsAt "k8s".toList lines start line) ∧
      ∃ e, ofLines "k8s".toList lines = .ok e ∧ e.before = lines.take 5 ∧
        e.body.firstLine = 8 := by
  let lines : List Text :=
    ["a \x7b".toList, "k8s \x7b".toList, "\x7d \x7d // \x7d".toList, "k8s".toList, "b = 1".toList,
      " k8s // name".toList, "// brace".toList, "\x7b c = 1".toList, "\x7d".toList]
  have hname : ∀ c ∈ "k8s".toList, Placeholder.isKeyChar c = true := List.all_eq_true.1 (by decide)
  have hfind : Header.find "k8s".toList 0 none 0 lines = some ⟨5, 7, 1⟩ := by decide
  have hfirst : IsFirst "k8s".toList lines 5 7 := Header.isFirst_of_find hname (by decide) hfind
  obtain ⟨herror, hok⟩ := ofLines_first_header hname (by decide) lines
  exact ⟨lines, hname, by decide, rfl, hfirst, herror, hok 5 7 hfirst⟩

end Excerpt
end HeadJob
