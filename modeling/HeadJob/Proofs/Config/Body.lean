import HeadJob.Proofs.Config.Header

/-!
Where the body of a block ends.

The closing brace is found by the braces of all lines taken one after another, so lines that close
no more than they open can be put in front of a body.  What a body keeps of its lines, and what is
left after them, is part of the lines it was cut from.
-/

namespace HeadJob

/-- The characters of lines that stand outside quotes and comments. -/
def Text.marks (ls : List Text) : Text := ls.flatMap fun l => Scan.start.outside l.stripComment

theorem Text.marks_append (a b : List Text) : marks (a ++ b) = marks a ++ marks b :=
  List.flatMap_append

namespace Ending

open Delimiter (braces)

variable {depth index : Nat}

/-- Lines that do not close the block belong to its body. -/
theorem read_append {m : Nat} {ls : List Text} (h : braces.depthAfter depth (Text.marks ls) = some m)
    (rest : List Text) :
    read depth index (ls ++ rest) =
      (ls.map Text.stripComment ++ (read m (index + ls.length) rest).1,
        (read m (index + ls.length) rest).2) := by
  induction ls generalizing depth index with
  | nil => cases h; rfl
  | cons raw ls ih =>
    rw [Text.marks, List.flatMap_cons, Delimiter.depthAfter_append] at h
    obtain ⟨d, hd, h⟩ := Option.bind_eq_some_iff.1 h
    rw [List.cons_append, read, Delimiter.closingOf,
      Delimiter.closingFrom_of_depthAfter_eq_some hd]
    simp only [ih h, List.map_cons, List.cons_append, List.length_cons, Nat.add_assoc,
      Nat.add_comm 1]

/-- Lines that close the block leave everything after them alone. -/
theorem exists_read_append {ls : List Text} (h : braces.depthAfter depth (Text.marks ls) = none)
    (index : Nat) (rest : List Text) :
    ∃ body line trailing left,
      read depth index (ls ++ rest) = (body, .closed line trailing (left ++ rest)) := by
  induction ls generalizing depth index with
  | nil => cases h
  | cons raw ls ih =>
    rw [Text.marks, List.flatMap_cons, Delimiter.depthAfter_append, Option.bind_eq_none_iff] at h
    rw [List.cons_append, read]
    cases hd : braces.depthAfter depth (Scan.start.outside raw.stripComment) with
    | none =>
      obtain ⟨pos, hpos⟩ := Delimiter.exists_closingFrom_of_depthAfter_eq_none hd 0
      rw [Delimiter.closingOf, hpos]
      exact ⟨_, _, _, ls, rfl⟩
    | some d =>
      obtain ⟨body, line, trailing, left, hread⟩ := ih (h d hd) (index + 1)
      rw [Delimiter.closingOf, Delimiter.closingFrom_of_depthAfter_eq_some hd]
      simp only [hread]
      exact ⟨_, _, _, left, rfl⟩

/-- A block closes inside one of its lines, at a character between the body and the rest. -/
theorem exists_of_read_eq_closed {ls rest : List Text} {line : Nat} {trailing : Text}
    (h : (read depth index ls).2 = .closed line trailing rest) :
    ∃ skipped front c, ls = skipped ++ (front ++ c :: trailing) :: rest := by
  induction ls generalizing depth index with
  | nil => cases h
  | cons raw ls ih =>
    rw [read] at h
    split at h
    · next n hn =>
      cases h
      have hlt : n < raw.length := by
        have hpos := (Delimiter.lt_length_of_closingFrom hn).2
        have hle := (Text.stripComment_sublist raw).length_le
        omega
      refine ⟨[], raw.take n, raw[n], ?_⟩
      rw [List.nil_append, List.getElem_cons_drop, List.take_append_drop]
    · next n hn =>
      obtain ⟨skipped, front, c, hls⟩ := ih h
      exact ⟨raw :: skipped, front, c, by rw [hls, List.cons_append]⟩

/-- A line of a body is the beginning of a source line and holds no comment. -/
theorem read_lines {ls : List Text} {l : Text} (h : l ∈ (read depth index ls).1) :
    l.stripComment = l ∧ ∃ raw ∈ ls, l <+: raw := by
  induction ls generalizing depth index with
  | nil => cases h
  | cons raw ls ih =>
    have hpre := Scan.beforeComment_isPrefix Scan.start raw
    rw [read] at h
    split at h
    · next n hn =>
      have htake : l = raw.stripComment.take n := List.mem_singleton.1 h
      rw [htake]
      refine ⟨?_, raw, List.mem_cons_self, (List.take_prefix _ _).trans hpre⟩
      have hbare : Scan.start.IsBare (raw.stripComment.take n ++ raw.stripComment.drop n) := by
        rw [List.take_append_drop]
        exact Text.stripComment_stripComment raw
      exact hbare.of_append_left
    · rcases List.mem_cons.1 h with rfl | h
      · exact ⟨Text.stripComment_stripComment raw, raw, List.mem_cons_self, hpre⟩
      · obtain ⟨hbare, raw', hraw', hl⟩ := ih h
        exact ⟨hbare, raw', List.mem_cons_of_mem raw hraw', hl⟩

/-- A brace that stands alone closes a block that is one brace deep, and nothing follows it. -/
theorem read_brace (index : Nat) (rest : List Text) :
    read 1 index (['}'] :: rest) = ([[]], .closed index [] rest) := rfl

theorem read_brace_of_lt {n : Nat} (hn : 1 < n) (index : Nat) (rest : List Text) :
    read n index (['}'] :: rest) =
      (['}'] :: (read (n - 1) (index + 1) rest).1, (read (n - 1) (index + 1) rest).2) := by
  have hdepth : braces.depthAfter n (Text.marks [['}']]) = some (n - 1) := by
    show braces.depthAfter n ['}'] = some (n - 1)
    rw [Delimiter.depthAfter, if_neg (by decide), if_pos (by decide), if_neg (by omega)]
    rfl
  exact read_append hdepth rest

end Ending

/-! ## The text around a body -/

namespace Excerpt

/-- A body read from its first line on, which stands in line `line`, and what is around it. -/
def around (before : List Text) (line : Nat) (source : List Text) : Excerpt :=
  let (body, ending) := Ending.read 1 line source
  match ending with
  | .unterminated => ⟨⟨body, line + 1⟩, before, [], [.unterminatedBlock (line + 1)]⟩
  | .closed closing trailing rest =>
    if Text.isAllBlank (Text.stripComment trailing) then ⟨⟨body, line + 1⟩, before, rest, []⟩
    else
      ⟨⟨body, line + 1⟩, before, trailing :: rest,
        [.trailingContent (closing + 1) (Text.trim trailing)]⟩

theorem atHeader_eq_around (lines : List Text) (header : Header) :
    atHeader lines header =
      around (lines.take header.start) header.line
        (match lines.drop header.line with
        | [] => []
        | first :: rest => first.drop header.width :: rest) := rfl

theorem body_around (before : List Text) (line : Nat) (source : List Text) :
    (around before line source).body = ⟨(Ending.read 1 line source).1, line + 1⟩ := by
  unfold around
  dsimp only
  split
  · rfl
  · split <;> rfl

theorem before_around (before : List Text) (line : Nat) (source : List Text) :
    (around before line source).before = before := by
  unfold around
  dsimp only
  split
  · rfl
  · split <;> rfl

theorem after_around_of_unterminated {before : List Text} {line : Nat} {source : List Text}
    (h : (Ending.read 1 line source).2 = .unterminated) : (around before line source).after = [] := by
  rw [around]
  simp only [h]

/-- What follows the closing brace on its line is kept with the lines after it, unless it is blank. -/
theorem after_around_of_closed (before : List Text) {line closing : Nat}
    {source rest : List Text} {trailing : Text}
    (h : (Ending.read 1 line source).2 = .closed closing trailing rest) :
    (around before line source).after = rest ∨
      (around before line source).after = trailing :: rest := by
  rw [around]
  simp only [h]
  split
  · exact .inl rfl
  · exact .inr rfl

theorem after_around {before : List Text} {line : Nat} {source : List Text} {l : Text}
    (h : l ∈ (around before line source).after) : ∃ raw ∈ source, l <:+ raw := by
  cases hending : (Ending.read 1 line source).2 with
  | unterminated => rw [after_around_of_unterminated hending] at h; cases h
  | closed closing trailing rest =>
    obtain ⟨skipped, front, c, hsource⟩ := Ending.exists_of_read_eq_closed hending
    have hmem : ∀ raw ∈ (front ++ c :: trailing) :: rest, raw ∈ source := by
      rw [hsource]
      exact fun raw hraw => List.mem_append_right _ hraw
    have hl : l ∈ trailing :: rest := by
      rcases after_around_of_closed before hending with hafter | hafter <;>
        rw [hafter] at h
      · exact List.mem_cons_of_mem _ h
      · exact h
    rcases List.mem_cons.1 hl with rfl | hl
    · exact ⟨_, hmem _ List.mem_cons_self, (List.suffix_cons c l).trans (List.suffix_append _ _)⟩
    · exact ⟨l, hmem l (List.mem_cons_of_mem _ hl), List.suffix_refl l⟩

theorem ofLines_eq_ok {name : Text} {lines : List Text} {e : Excerpt}
    (h : ofLines name lines = .ok e) :
    ∃ header, Header.find name 0 none 0 lines = some header ∧ e = atHeader lines header := by
  unfold ofLines at h
  split at h
  · cases h
  · next header hheader =>
    cases h
    exact ⟨header, hheader, rfl⟩

theorem ofLines_written {name : Text} (hname : ∀ c ∈ name, Placeholder.isKeyChar c = true)
    {before : List Text} {s : Header.Search} (hs : Header.Search.after? name {} 0 before = some s)
    (hdepth : s.depth = 0) (hwaiting : name = [] → s.waiting = none) (rest : List Text) :
    ofLines name (before ++ Header.written name :: rest) =
      .ok (around before before.length ([] :: rest)) := by
  have hfind := Header.Search.find_append_of_after? name hs (Header.written name :: rest)
  rw [Header.find_written hname hdepth hwaiting, Nat.zero_add] at hfind
  rw [ofLines, show Header.find name 0 none 0 (before ++ Header.written name :: rest) = _ from hfind]
  simp [atHeader_eq_around]

end Excerpt
end HeadJob
