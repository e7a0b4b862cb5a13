import HeadJob.Proofs.Config.TopLevel

/-!
The brace that closes a block.

Which brace that is can be said of the lines alone: it stands outside quotes and comments, as many
braces are closed before it as were opened after the header, and no earlier brace is like that.  The
lines up to it are the body, what follows it is left after the block, and no line comes in twice or is
lost.
-/

namespace HeadJob

open Delimiter (braces)
open Text (isAllBlank)

namespace Ending

variable {source : List Text} {k : Nat} {front trailing : Text}

/-! ## The braces of the lines after a header -/

/-- Line `k` closes a brace between `front` and `trailing`, outside quotes and comments. -/
structure HasBrace (source : List Text) (k : Nat) (front trailing : Text) : Prop where
  line : source[k]? = some (front ++ '}' :: trailing)
  uncommented : front ++ ['}'] <+: (front ++ '}' :: trailing).stripComment
  unquoted : (Scan.start.run front).quote = none

/-- The brace closes what was open before the lines: they open as many braces before it as they
close. -/
structure Balances (source : List Text) (k : Nat) (front trailing : Text) : Prop
    extends HasBrace source k front trailing where
  balance : braces.balance (Text.marks (source.take k) ++ Scan.start.outside front) = 0

/-- No earlier brace balances. -/
structure IsClosing (source : List Text) (k : Nat) (front trailing : Text) : Prop
    extends Balances source k front trailing where
  least : ∀ k' front' trailing', Balances source k' front' trailing' →
    k < k' ∨ k = k' ∧ front.length ≤ front'.length

theorem outside_brace (h : (Scan.start.run front).quote = none) (t : Text) :
    Scan.start.outside front ++ ['}'] <+: Scan.start.outside (front ++ '}' :: t) := by
  have hout : (Scan.start.run front).isOutside '}' = true := by
    rw [Scan.isOutside_of_plain (by decide), h]
    rfl
  rw [Scan.outside_append, Scan.outside, if_pos hout]
  exact ⟨((Scan.start.run front).next '}').outside t, by simp⟩

theorem marks_take_isPrefix {n m : Nat} (h : n ≤ m) :
    Text.marks (source.take n) <+: Text.marks (source.take m) := by
  obtain ⟨later, hlater⟩ := List.take_prefix_take_left h
  rw [← hlater, Text.marks_append]
  exact List.prefix_append _ _

/-- What the lines close up to a brace is part of what they close up to any later place. -/
theorem HasBrace.isPrefix (h : HasBrace source k front trailing) {n : Nat} (hn : k < n) :
    Text.marks (source.take k) ++ Scan.start.outside front ++ ['}'] <+:
      Text.marks (source.take n) := by
  refine List.IsPrefix.trans ?_ (marks_take_isPrefix hn)
  obtain ⟨t, ht⟩ := h.uncommented
  rw [List.take_add_one, h.line, Option.toList_some, Text.marks_append, List.append_assoc,
    List.prefix_append_right_inj, Text.marks, List.flatMap_singleton, ← ht, List.append_assoc]
  exact outside_brace h.unquoted t

/-- A brace that balances closes one more than was opened, which nothing does that stays open. -/
theorem Balances.not_isPrefix (h : Balances source k front trailing) {marks : Text}
    (hmarks : braces.NeverNegative marks) :
    ¬Text.marks (source.take k) ++ Scan.start.outside front ++ ['}'] <+: marks := by
  intro hpre
  have hnonneg := hmarks _ ((List.mem_inits _ _).2 hpre)
  rw [Delimiter.balance_append, h.balance] at hnonneg
  exact absurd hnonneg (by decide)

/-! ## Reading up to the closing brace -/

/-- What is read up to a brace, and what is left after it. -/
def cutAt (source : List Text) (index k : Nat) (front trailing : Text) : List Text × Ending :=
  ((source.take k).map Text.stripComment ++ [front],
    .closed (index + k) trailing (source.drop (k + 1)))

/-- Lines that close more braces than are open are cut at one that leaves none open. -/
theorem exists_cutAt {depth : Nat} (h : braces.depthAfter depth (Text.marks source) = none)
    (index : Nat) :
    ∃ k front trailing m, HasBrace source k front trailing ∧
      braces.depthAfter depth (Text.marks (source.take k) ++ Scan.start.outside front) = some m ∧
      m ≤ 1 ∧ read depth index source = cutAt source index k front trailing := by
  induction source generalizing depth index with
  | nil => cases h
  | cons raw rest ih =>
    rw [Text.marks, List.flatMap_cons, Delimiter.depthAfter_append, Option.bind_eq_none_iff] at h
    rw [read]
    cases hd : braces.depthAfter depth (Scan.start.outside raw.stripComment) with
    | none =>
      obtain ⟨pos, hpos⟩ := Delimiter.exists_closingFrom_of_depthAfter_eq_none hd 0
      obtain ⟨front, back, m, hline, rfl, hout, hm, hle⟩ :=
        Delimiter.exists_of_closingFrom_eq_closed hpos
      rw [Nat.zero_add] at hpos
      -- the comment of the line comes after the brace
      obtain ⟨comment, hcomment⟩ := Scan.beforeComment_isPrefix Scan.start raw
      have hstrip : (Scan.start.beforeComment raw).1 = front ++ '}' :: back := hline
      have hraw : raw = front ++ '}' :: (back ++ comment) := by
        rw [← hcomment, hstrip]
        simp
      have hquote : (Scan.start.run front).quote = none := by
        rw [Scan.isOutside, Bool.and_eq_true, Option.isNone_iff_eq_none] at hout
        exact hout.1
      refine ⟨0, front, back ++ comment, m, ⟨by rw [← hraw]; rfl, ?_, hquote⟩, hm, hle, ?_⟩
      · rw [← hraw, hline]
        exact ⟨back, by simp; rfl⟩
      · rw [Delimiter.closingOf, hpos]
        simp only [cutAt, hline]
        rw [hraw]
        simp
    | some d =>
      obtain ⟨k, front, trailing, m, hbrace, hm, hle, hread⟩ := ih (h d hd) (index + 1)
      refine ⟨k + 1, front, trailing, m,
        ⟨hbrace.line, hbrace.uncommented, hbrace.unquoted⟩, ?_, hle, ?_⟩
      · rw [List.take_succ_cons, Text.marks, List.flatMap_cons, List.append_assoc,
          Delimiter.depthAfter_append, hd]
        exact hm
      · rw [Delimiter.closingOf, Delimiter.closingFrom_of_depthAfter_eq_some hd]
        simp only [hread, cutAt, List.take_succ_cons, List.map_cons, List.cons_append,
          List.drop_succ_cons, Nat.add_assoc, Nat.add_comm 1]

theorem isClosing_of_neverNegative (h : Balances source k front trailing)
    (hmarks : braces.NeverNegative (Text.marks (source.take k) ++ Scan.start.outside front)) :
    IsClosing source k front trailing := by
  refine ⟨h, fun k' front' trailing' h' => ?_⟩
  by_contra hearlier
  rw [not_or, not_and, Nat.not_lt, Nat.not_le] at hearlier
  refine h'.not_isPrefix hmarks ?_
  rcases Nat.lt_or_eq_of_le hearlier.1 with hlt | rfl
  · exact (h'.isPrefix hlt).trans (List.prefix_append _ _)
  · -- both braces stand on one line
    have hlength := hearlier.2 rfl
    have hline := h.line
    rw [h'.line, Option.some_inj] at hline
    rw [List.append_assoc, List.prefix_append_right_inj]
    rcases List.append_eq_append_iff.1 hline with ⟨x, rfl, hx⟩ | ⟨x, rfl, -⟩
    · cases x with
      | nil => simp at hlength
      | cons c u =>
        injection hx with hc _
        rw [← hc]
        exact outside_brace h'.unquoted u
    · rw [List.length_append] at hlength
      omega

/-- A block that is one brace deep is cut at its closing brace, or takes in all lines if there is
none. -/
theorem read_cases (source : List Text) (index : Nat) :
    (∃ k front trailing, IsClosing source k front trailing ∧
      braces.NeverNegative (Text.marks (source.take k) ++ Scan.start.outside front) ∧
      read 1 index source = cutAt source index k front trailing) ∨
    (∀ k front trailing, ¬Balances source k front trailing) ∧
      read 1 index source = (source.map Text.stripComment, .unterminated) := by
  cases h : braces.depthAfter 1 (Text.marks source) with
  | none =>
    obtain ⟨k, front, trailing, m, hbrace, hm, hle, hread⟩ := exists_cutAt h index
    have hpos := Delimiter.depthAfter_pos Nat.one_pos hm
    obtain ⟨hmarks, hbalance⟩ := Delimiter.depthAfter_one_eq_some_iff.1 hm
    have hbalances : Balances source k front trailing := ⟨hbrace, by omega⟩
    exact .inl ⟨k, front, trailing, isClosing_of_neverNegative hbalances hmarks, hmarks, hread⟩
  | some m =>
    refine .inr ⟨fun k front trailing hbalances => ?_, ?_⟩
    · have hlt : k < source.length := (List.getElem?_eq_some_iff.1 hbalances.line).1
      refine hbalances.not_isPrefix (Delimiter.depthAfter_one_eq_some_iff.1 h).1 ?_
      have hpre := hbalances.isPrefix hlt
      rwa [List.take_length] at hpre
    · have hread : read 1 index (source ++ []) = _ := read_append h []
      simpa [read] using hread

end Ending

/-! ## The text around a block -/

namespace Header

variable {name : Text}

/-- The brace of a header is the first one on its line. -/
theorem exists_brace_of_width? (hname : ∀ c ∈ name, Placeholder.isKeyChar c = true) {raw : Text}
    {width : Nat} (h : width? name raw.stripComment = some width) :
    ∃ head, raw = head ++ '{' :: raw.drop width ∧ '{' ∉ head := by
  obtain ⟨front, ⟨a, b, ha, hb, rfl⟩, hpre, rfl⟩ := (width?_eq_some_iff hname).1 h
  obtain ⟨t, ht⟩ := hpre.trans (Scan.beforeComment_isPrefix Scan.start raw)
  refine ⟨a ++ name ++ b, ?_, fun hmem => ?_⟩
  · conv_lhs => rw [← ht]
    rw [← ht, List.drop_left, List.append_assoc _ ['{']]
    rfl
  · simp only [List.mem_append] at hmem
    rcases hmem with (hmem | hmem) | hmem
    · exact absurd (List.all_eq_true.1 ha _ hmem) (by decide)
    · exact absurd (hname _ hmem) (by decide)
    · exact absurd (List.all_eq_true.1 hb _ hmem) (by decide)

end Header

namespace Excerpt

variable {name : Text} {lines : List Text} {e : Excerpt}

/-- The excerpt of a block whose brace is on line `line` and whose text after that is `source`, which
closes `k` lines further on. -/
structure EndsAt (e : Excerpt) (lines : List Text) (line : Nat) (source : List Text) (k : Nat)
    (front trailing : Text) : Prop where
  closing : Ending.IsClosing source k front trailing
  body : e.body.lines = (source.take k).map Text.stripComment ++ [front]
  length : e.body.lines.length = k + 1
  deep : ∀ p, p <+: e.body.lines.flatMap Scan.start.outside → 1 ≤ 1 + braces.balance p
  after : e.after = if isAllBlank trailing.stripComment then lines.drop (line + k + 1)
    else trailing :: lines.drop (line + k + 1)
  warnings : e.warnings = if isAllBlank trailing.stripComment then []
    else [.trailingContent (line + k + 1) trailing.trim]

/-- The excerpt of a block that takes in all lines, since no brace closes it. -/
structure NeverEnds (e : Excerpt) (line : Nat) (source : List Text) : Prop where
  unclosed : ∀ k front trailing, ¬Ending.Balances source k front trailing
  body : e.body.lines = source.map Text.stripComment
  after : e.after = []
  warnings : e.warnings = [.unterminatedBlock (line + 1)]

theorem endsAt_or_neverEnds (before : List Text) {line : Nat} {raw first : Text}
    {later : List Text} (hlines : lines.drop line = raw :: later) :
    (∃ k front trailing,
      (around before line (first :: later)).EndsAt lines line (first :: later) k front trailing) ∨
    (around before line (first :: later)).NeverEnds line (first :: later) := by
  rcases Ending.read_cases (first :: later) line with
    ⟨k, front, trailing, hclosing, hmarks, hread⟩ | ⟨hnone, hread⟩
  · left
    have hbody : (around before line (first :: later)).body.lines =
        ((first :: later).take k).map Text.stripComment ++ [front] := by
      rw [body_around, hread]
      rfl
    have hlt : k < (first :: later).length := (List.getElem?_eq_some_iff.1 hclosing.line).1
    have hrest : (first :: later).drop (k + 1) = lines.drop (line + k + 1) := by
      have hdrop : (lines.drop line).drop (k + 1) = lines.drop (line + (k + 1)) := List.drop_drop
      rw [Nat.add_assoc, ← hdrop, hlines]
      rfl
    have haround : (around before line (first :: later)).after =
          (if isAllBlank trailing.stripComment then lines.drop (line + k + 1)
            else trailing :: lines.drop (line + k + 1)) ∧
        (around before line (first :: later)).warnings =
          (if isAllBlank trailing.stripComment then []
            else [.trailingContent (line + k + 1) trailing.trim]) := by
      rw [around, hread, Ending.cutAt, hrest]
      dsimp only
      split
      · exact ⟨rfl, rfl⟩
      · exact ⟨rfl, rfl⟩
    refine ⟨k, front, trailing, hclosing, hbody, ?_, fun p hp => ?_, haround.1, haround.2⟩
    · rw [hbody, List.length_append, List.length_map, List.length_take, List.length_singleton,
        Nat.min_eq_left (Nat.le_of_lt hlt)]
    · rw [hbody, List.flatMap_append, List.flatMap_map, List.flatMap_singleton] at hp
      have hnonneg := hmarks p ((List.mem_inits _ _).2 hp)
      omega
  · right
    refine ⟨hnone, ?_, after_around_of_unterminated (congrArg Prod.snd hread), ?_⟩
    · rw [body_around, hread]
    · rw [around, hread]

/-- The lines of a configuration are parted around a block and none is lost: those before the first
header stand in front of it, the body goes from the brace of the header to the brace that closes it,
each line without its comment, and what follows that brace is left.  With no such brace the body takes
in all lines. -/
theorem ofLines_parted (hname : ∀ c ∈ name, Placeholder.isKeyChar c = true) (hne : name ≠ [])
    (h : ofLines name lines = .ok e) :
    ∃ start line head first later, Header.IsFirst name lines start line ∧
      lines.drop line = (head ++ '{' :: first) :: later ∧ '{' ∉ head ∧
      e.before = lines.take start ∧ e.body.firstLine = line + 1 ∧
      ((∃ k front trailing, e.EndsAt lines line (first :: later) k front trailing) ∨
        e.NeverEnds line (first :: later)) := by
  obtain ⟨header, hheader, rfl⟩ := ofLines_eq_ok h
  obtain ⟨n, raw, later, hline, hdrop, hwidth⟩ := Header.exists_of_find (s := {}) hheader
  obtain rfl : n = header.line := by omega
  obtain ⟨head, hraw, hhead⟩ : ∃ head, raw = head ++ '{' :: raw.drop header.width ∧ '{' ∉ head :=
    hwidth.elim (Header.exists_brace_of_width? hname)
      (Header.exists_brace_of_width? fun _ hc => absurd hc List.not_mem_nil)
  refine ⟨header.start, header.line, head, raw.drop header.width, later,
    Header.isFirst_of_find hname hne hheader, by rw [hdrop, ← hraw], hhead, ?_⟩
  rw [atHeader_of_drop hdrop, before_around, body_around]
  exact ⟨rfl, rfl, endsAt_or_neverEnds _ hdrop⟩

/-- The braces in quotes and comments do not close the block, and one that does is followed by text. -/
theorem ofLines_parted_of_trailing :
    ∃ lines e, (∀ c ∈ "k8s".toList, Placeholder.isKeyChar c = true) ∧ "k8s".toList ≠ [] ∧
      ofLines "k8s".toList lines = .ok e ∧
      e.body.lines = [" a = '\x7d'".toList, "b \x7b ".toList, "\x7d ".toList] ∧
      e.after = [" c \x7d".toList, "d".toList] ∧
      ∃ start line head first later, Header.IsFirst "k8s".toList lines start line ∧
        lines.drop line = (head ++ '{' :: first) :: later ∧ '{' ∉ head ∧
        e.before = lines.take start ∧ e.body.firstLine = line + 1 ∧
        ((∃ k front trailing, e.EndsAt lines line (first :: later) k front trailing) ∨
          e.NeverEnds line (first :: later)) := by
  have hname : ∀ c ∈ "k8s".toList, Placeholder.isKeyChar c = true := List.all_eq_true.1 (by decide)
  have hread : ofLines "k8s".toList ["k8s \x7b a = '\x7d'".toList, "b \x7b // \x7d".toList,
      "\x7d \x7d c \x7d".toList, "d".toList] =
        .ok ⟨⟨[" a = '\x7d'".toList, "b \x7b ".toList, "\x7d ".toList], 1⟩, [],
          [" c \x7d".toList, "d".toList], [.trailingContent 3 "c \x7d".toList]⟩ := rfl
  exact ⟨_, _, hname, by decide, hread, rfl, rfl, ofLines_parted hname (by decide) hread⟩

end Excerpt
end HeadJob
