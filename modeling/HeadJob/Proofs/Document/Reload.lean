import HeadJob.Proofs.Config.Growth
import HeadJob.Proofs.Document.Writable

/-!
When a written document reads back as it was.

Values that were read over several lines are written on one, and quotes and braces are then looked for
in another text than before.  So a document may come back changed.  It comes back unchanged exactly if
each entry is read from its own line, each sub-block is carried through as it stands, and the braces of
all these lines leave the block open up to its closing brace.
-/

namespace HeadJob

open Delimiter (braces)

/-! ## Lines inside a block -/

/-- How far lines are indented makes no difference to their braces. -/
theorem Document.depthAfter_marks_indented (ls : List Text) (n : Nat) :
    braces.depthAfter n (Text.marks (ls.map indented)) = braces.depthAfter n (Text.marks ls) := by
  induction ls generalizing n with
  | nil => rfl
  | cons l ls ih =>
    have hindent : Scan.start.outside (Text.stripComment (indented l)) =
        [' ', ' ', ' '] ++ Scan.start.outside l.chomp.stripComment := by
      rw [indented, Text.stripComment_append_of_isAllBlank (by decide), Scan.outside_append,
        Scan.run_start_of_isAllBlank (by decide)]
      rfl
    have hline : braces.among (Scan.start.outside (Text.stripComment (indented l))) =
        braces.among (Scan.start.outside l.stripComment) := by
      rw [hindent, Delimiter.among_append]
      rcases Text.stripComment_chomp l with h | h
      · rw [h]
        rfl
      · rw [h, Delimiter.among_append_blanks (by decide) (by decide) (by decide)]
        rfl
    rw [Text.marks, List.map_cons, List.flatMap_cons, Delimiter.depthAfter_append,
      ← Delimiter.depthAfter_among, hline, Delimiter.depthAfter_among, Text.marks,
      List.flatMap_cons, Delimiter.depthAfter_append]
    exact congrArg _ (funext ih)

namespace Document

variable {d : Document}

def bodyLines (d : Document) : List Text :=
  [] :: (d.blockLines.map indented).map Text.stripComment

theorem read_laterLines {m : Nat} (h : braces.depthAfter 1 (Text.marks d.blockLines) = some m)
    (line : Nat) :
    ∃ index, Ending.read 1 line ([] :: d.laterLines) =
      (d.bodyLines ++ (Ending.read m index (['}'] :: (Text.join ['\n'] d.after).lines)).1,
        (Ending.read m index (['}'] :: (Text.join ['\n'] d.after).lines)).2) := by
  have hmarks : braces.depthAfter 1
      (Text.marks ([] :: d.blockLines.map indented)) = some m := by
    rw [← h, ← depthAfter_marks_indented d.blockLines]
    rfl
  exact ⟨_, Ending.read_append hmarks _⟩

/-- A block whose braces are balanced is closed by the brace that is written for it. -/
theorem excerpt_of_depthAfter_one (h : braces.depthAfter 1 (Text.marks d.blockLines) = some 1) :
    d.excerpt = ⟨⟨d.bodyLines ++ [[]], d.before.length + 1⟩, d.before.map Text.chomp,
      (Text.join ['\n'] d.after).lines, []⟩ := by
  obtain ⟨index, hread⟩ := read_laterLines h d.before.length
  rw [Ending.read_brace] at hread
  rw [excerpt, Excerpt.around]
  simp only [hread]
  rfl

/-- A block that leaves a brace open takes the brace that is written for it into its body. -/
theorem excerpt_of_lt {m : Nat} (h : braces.depthAfter 1 (Text.marks d.blockLines) = some m)
    (hm : 1 < m) (hafter : d.after = [] ∨ d.after = [[]]) :
    d.excerpt = ⟨⟨d.bodyLines ++ [['}']], d.before.length + 1⟩, d.before.map Text.chomp, [],
      [.unterminatedBlock (d.before.length + 1)]⟩ := by
  obtain ⟨index, hread⟩ := read_laterLines h d.before.length
  have hrest : (Text.join ['\n'] d.after).lines = [] := by
    rcases hafter with h | h <;> rw [h] <;> rfl
  rw [hrest, Ending.read_brace_of_lt hm] at hread
  rw [excerpt, Excerpt.around]
  simp only [hread]
  rfl

/-- What a body says is told by what a reader sees of its lines. -/
theorem contents_bodyLines (line : Nat) (tail : List Text) :
    (⟨d.bodyLines ++ tail, line⟩ : Body).contents =
      ((BodyReader.feedAll {} (line + 1)
        (BodyReader.seenLines d.settings.entries d.nested)).feedAll
          (line + 1 + d.blockLines.length) tail).finish := by
  have hseen : ((d.blockLines.map indented).map Text.stripComment).map Text.trim =
      (BodyReader.seenLines d.settings.entries d.nested).map Text.trim := by
    rw [BodyReader.seenLines, List.map_map, List.map_map, List.map_map]
    refine List.map_congr_left fun l _ => ?_
    simp only [Function.comp_apply, Text.seen, Text.trim_trim]
    rw [indented, Text.stripComment_append_of_isAllBlank (by decide),
      Text.trim_append_of_isAllBlank (by decide), Text.trim_stripComment_chomp]
  rw [Body.contents, bodyLines, List.cons_append, BodyReader.feedAll, BodyReader.feedAll_append,
    BodyReader.feedAll_congr hseen]
  simp only [List.length_map]
  rfl

/-! ## Reading back -/

/-- Two documents say the same, but for an empty line at the very end. -/
structure SameContent (d d' : Document) : Prop where
  settings : d'.settings = d.settings
  nested : d'.nested = d.nested
  before : d'.before = d.before
  after : d.after = d'.after ∨ d.after = d'.after ++ [[]]

/-- The document comes back when it is written and read. -/
structure ReadsBack (d : Document) : Prop where
  /-- Each entry is read from its own line. -/
  settings : ∀ e ∈ d.settings.entries, Text.ReadsBack e.1 e.2
  /-- Each line of a sub-block is read in one, or opens one. -/
  nested : CarriedFrom 0 d.nested
  /-- No line closes the block. -/
  stays : braces.NeverNegative (Text.marks d.blockLines)
  /-- The block is closed by the brace that is written for it, unless nothing follows that brace. -/
  closes : braces.balance (Text.marks d.blockLines) = 0 ∨ d.after = [] ∨ d.after = [[]]

/-- A block that is closed early leaves its closing brace behind as a line. -/
theorem depthAfter_ne_none (hlines : ∀ l ∈ d.after, '\n' ∉ l)
    (hafter : d.after = d.excerpt.after ∨ d.after = d.excerpt.after ++ [[]]) :
    braces.depthAfter 1 (Text.marks d.blockLines) ≠ none := by
  intro h
  have hmarks : braces.depthAfter 1
      (Text.marks ([] :: d.blockLines.map indented)) = none := by
    rw [← h, ← depthAfter_marks_indented d.blockLines]
    rfl
  obtain ⟨body, line, trailing, left, hread⟩ := Ending.exists_read_append hmarks d.before.length
    (['}'] :: (Text.join ['\n'] d.after).lines)
  have hend : d.excerpt.after = left ++ ['}'] :: (Text.join ['\n'] d.after).lines ∨
      d.excerpt.after = trailing :: (left ++ ['}'] :: (Text.join ['\n'] d.after).lines) :=
    Excerpt.after_around_of_closed _ (congrArg Prod.snd hread)
  have hcount : (Text.join ['\n'] d.after).lines.count ['}'] + 1 ≤
      d.excerpt.after.count ['}'] := by
    rcases hend with hend | hend
    · rw [hend, List.count_append, List.count_cons_self]
      omega
    · rw [hend, List.count_cons, List.count_append, List.count_cons_self]
      omega
  have hsame : d.after.count ['}'] = d.excerpt.after.count ['}'] := by
    rcases hafter with h | h
    · rw [← h]
    · conv_lhs => rw [h]
      rw [List.count_append]
      rfl
  have hjoin := Text.count_le_count_lines_join (l := ['}']) (by decide) (by decide) hlines
  omega

/-- A block that is closed late swallows some of the lines after it. -/
theorem after_eq_of_lt {m : Nat} (hlines : ∀ l ∈ d.after, '\n' ∉ l)
    (h : braces.depthAfter 1 (Text.marks d.blockLines) = some m) (hm : 1 < m)
    (hafter : d.after = d.excerpt.after ∨ d.after = d.excerpt.after ++ [[]]) :
    d.after = [] ∨ d.after = [[]] := by
  obtain ⟨index, hread⟩ := read_laterLines h d.before.length
  rw [Ending.read_brace_of_lt hm] at hread
  have hending := congrArg Prod.snd hread
  dsimp only at hending
  cases hrest : (Ending.read (m - 1) (index + 1) (Text.join ['\n'] d.after).lines).2 with
  | unterminated =>
    rw [hrest] at hending
    rw [excerpt, Excerpt.after_around_of_unterminated hending] at hafter
    simpa using hafter
  | closed line trailing rest =>
    exfalso
    rw [hrest] at hending
    obtain ⟨skipped, front, c, hskipped⟩ := Ending.exists_of_read_eq_closed hrest
    -- what is left is shorter than what was written
    have hshort : (Text.unlines d.excerpt.after).length <
        (Text.unlines (Text.join ['\n'] d.after).lines).length := by
      have hend := Excerpt.after_around_of_closed (d.before.map Text.chomp) hending
      rw [hskipped]
      simp only [excerpt]
      rcases hend with hend | hend <;> rw [hend] <;>
        · simp only [Text.unlines, List.flatMap_append, List.flatMap_cons, List.length_append,
            List.length_cons, List.length_nil]
          omega
    have hjoin := Text.length_unlines_lines_join_le hlines
    have hlength : (Text.unlines (Text.dropFinalEmpty d.after)).length ≤
        (Text.unlines d.excerpt.after).length := by
      rcases hafter with h | h
      · rw [← h]
        rcases Text.eq_dropFinalEmpty_or d.after with h | h
        · rw [← h]
        · conv_rhs => rw [h]
          simp [Text.unlines]
      · rw [h, Text.dropFinalEmpty, if_pos (by simp), List.dropLast_concat]
    omega

/-- Where the lines after a block come back, it was closed by its own brace or by nothing. -/
theorem stays_and_closes (hlines : ∀ l ∈ d.after, '\n' ∉ l)
    (hafter : d.after = d.excerpt.after ∨ d.after = d.excerpt.after ++ [[]]) :
    braces.NeverNegative (Text.marks d.blockLines) ∧
      (braces.balance (Text.marks d.blockLines) = 0 ∨ d.after = [] ∨ d.after = [[]]) := by
  obtain ⟨m, hm⟩ := Option.ne_none_iff_exists'.1 (depthAfter_ne_none hlines hafter)
  obtain ⟨hstays, hbalance⟩ := Delimiter.depthAfter_one_eq_some_iff.1 hm
  refine ⟨hstays, ?_⟩
  have hpos : 0 ≤ braces.balance (Text.marks d.blockLines) := hstays _ (by simp)
  by_cases hone : m = 1
  · left
    omega
  · exact .inr (after_eq_of_lt hlines hm (by omega) hafter)

theorem contents_excerpt (hstays : braces.NeverNegative (Text.marks d.blockLines))
    (hcloses : braces.balance (Text.marks d.blockLines) = 0 ∨ d.after = [] ∨ d.after = [[]]) :
    d.excerpt.after = (Text.join ['\n'] d.after).lines ∧
      ∃ r n, (r = BodyReader.feedAll {} (d.before.length + 2)
          (BodyReader.seenLines d.settings.entries d.nested) ∨
        r = (BodyReader.feedAll {} (d.before.length + 2)
          (BodyReader.seenLines d.settings.entries d.nested)).feed n ['}']) ∧
        d.excerpt.body.contents = r.finish := by
  have hpos : 0 ≤ braces.balance (Text.marks d.blockLines) := hstays _ (by simp)
  by_cases hzero : braces.balance (Text.marks d.blockLines) = 0
  · have hdepth : braces.depthAfter 1 (Text.marks d.blockLines) = some 1 :=
      Delimiter.depthAfter_one_eq_some_iff.2 ⟨hstays, by omega⟩
    rw [excerpt_of_depthAfter_one hdepth]
    exact ⟨rfl, _, 0, .inl rfl, contents_bodyLines _ _⟩
  · obtain ⟨m, hm⟩ : ∃ m : Nat, (m : Int) = 1 + braces.balance (Text.marks d.blockLines) :=
      ⟨(1 + braces.balance (Text.marks d.blockLines)).toNat, by omega⟩
    have hdepth := Delimiter.depthAfter_one_eq_some_iff.2 ⟨hstays, hm⟩
    have hafter := hcloses.resolve_left hzero
    rw [excerpt_of_lt hdepth (by omega) hafter]
    refine ⟨?_, _, _, .inr rfl, contents_bodyLines _ _⟩
    rcases hafter with h | h <;> rw [h] <;> rfl

theorem nodup_keys (d : Document) : (d.settings.entries.map Prod.fst).Nodup := d.settings.nodup

theorem readsBack_of_reload (hd : d.Writable) {d' : Document}
    (h : ofText d.name d.render = .ok d') (hsettings : d'.settings = d.settings)
    (hnested : d'.nested = d.nested) (hafter : d.after = d'.after ∨ d.after = d'.after ++ [[]]) :
    d.ReadsBack := by
  rw [ofText_render hd.lined] at h
  cases h
  obtain ⟨hstays, hcloses⟩ := stays_and_closes hd.after hafter
  obtain ⟨-, r, n, hr, hcontents⟩ := contents_excerpt hstays hcloses
  dsimp only at hsettings hnested
  rw [hcontents] at hsettings hnested
  obtain ⟨hreads, hcarried⟩ := BodyReader.readsBack_of_finish d.nodup_keys hd.settings hd.nested
    rfl hr (congrArg OrderedMap.entries hsettings) hnested
  exact ⟨hreads, hcarried, hstays, hcloses⟩

theorem sameContent_of_readsBack (hd : d.Writable) (hbefore : ∀ l ∈ d.before, l.IsLine)
    (hafter : ∀ l ∈ d.after, l.IsLine) (h : d.ReadsBack) : ∃ d', ofText d.name d.render = .ok d' ∧ SameContent d d' := by
  obtain ⟨hexcerpt, r, n, hr, hcontents⟩ := contents_excerpt h.stays h.closes
  have hwritten := BodyReader.feedAll_written d.nodup_keys hd.settings h.settings hd.nested h.nested
    (d.before.length + 2)
  have hfinish : r.finish.settings = d.settings ∧ r.finish.nested = d.nested := by
    rw [← BodyReader.seenLines] at hwritten
    rw [hwritten] at hr
    rcases hr with rfl | rfl
    · exact ⟨OrderedMap.ofList_entries _, rfl⟩
    · rw [BodyReader.feed_brace_of_idle rfl]
      exact ⟨OrderedMap.ofList_entries _, rfl⟩
  refine ⟨_, ofText_render hd.lined, ?_, ?_, Text.map_chomp hbefore, ?_⟩
  · dsimp only
    rw [hcontents, hfinish.1]
  · dsimp only
    rw [hcontents, hfinish.2]
  · dsimp only
    rw [hexcerpt, Text.lines_join hafter]
    exact Text.eq_dropFinalEmpty_or d.after

/-- What was read from a text comes back when it is written and read again, up to an empty line at
the very end, exactly if it reads back line by line. -/
theorem reload_iff_readsBack {name text : Text}
    (hname : ∀ c ∈ name, Placeholder.isKeyChar c = true) (htext : '\r' ∉ text)
    (h : ofText name text = .ok d) :
    (∃ d', ofText name d.render = .ok d' ∧ SameContent d d') ↔ d.ReadsBack := by
  obtain ⟨hbefore, hafter⟩ := isLine_of_ofText htext h
  have hd := writable_of_ofText hname h (.inr hbefore)
  rw [← name_of_ofText h]
  refine ⟨fun ⟨d', hd', hsame⟩ => ?_, sameContent_of_readsBack hd hbefore hafter⟩
  exact readsBack_of_reload hd hd' hsame.settings hsame.nested hsame.after

theorem reload_iff_readsBack_of_list :
    ∃ d, (∀ c ∈ "k8s".toList, Placeholder.isKeyChar c = true) ∧
      '\r' ∉ "k8s \x7b\n  a = [\n  1 ]\n\x7d\n".toList ∧
      ofText "k8s".toList "k8s \x7b\n  a = [\n  1 ]\n\x7d\n".toList = .ok d ∧
      ((∃ d', ofText "k8s".toList d.render = .ok d' ∧ SameContent d d') ↔ d.ReadsBack) := by
  have hname : ∀ c ∈ "k8s".toList, Placeholder.isKeyChar c = true :=
    List.all_eq_true.1 (by decide)
  have htext : '\r' ∉ "k8s \x7b\n  a = [\n  1 ]\n\x7d\n".toList := by decide
  obtain ⟨d, hd⟩ : ∃ d, ofText "k8s".toList "k8s \x7b\n  a = [\n  1 ]\n\x7d\n".toList = .ok d :=
    ⟨_, rfl⟩
  exact ⟨d, hname, htext, hd, reload_iff_readsBack hname htext hd⟩

/-- A brace in a list that stands on several lines is open on one line, and takes in the brace after the
block. -/
theorem not_reload_of_brace_in_list :
    ∃ d, ofText "k8s".toList "k8s \x7b\n  a = [\n \x7b ]\n \x7d\n\x7d\n".toList = .ok d ∧
      ¬∃ d', ofText "k8s".toList d.render = .ok d' ∧ SameContent d d' := by
  have hread : ofText "k8s".toList "k8s \x7b\n  a = [\n \x7b ]\n \x7d\n\x7d\n".toList =
      .ok ⟨"k8s".toList, .ofList [("a".toList, "[ \x7b ]".toList)], [], [], [],
        [.notAssignment 4 ['}']]⟩ := rfl
  refine ⟨_, hread, fun ⟨d', hd', hsame⟩ => ?_⟩
  have hagain : ofText "k8s".toList "k8s \x7b\n   a = [ \x7b ]\n\x7d\n".toList =
      .ok ⟨"k8s".toList, .ofList [("a".toList, "[ \x7b ] \x7d".toList)], [], [], [],
        [.unterminatedBlock 1]⟩ := rfl
  rw [show render _ = "k8s \x7b\n   a = [ \x7b ]\n\x7d\n".toList from rfl, hagain] at hd'
  cases hd'
  exact absurd hsame.settings (by decide)

end Document
end HeadJob
