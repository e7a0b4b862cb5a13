import HeadJob.Proofs.Config.Spread
import HeadJob.Proofs.Config.Nested
import HeadJob.Proofs.Document.Writable

/-!
Whether what was read from a text is balanced.

A block ends where its own braces do, but its values and sub-blocks are told apart line by line, and so
they can come out with too many marks of one kind or too few.  What makes them balanced is said of the
lines they were read from.
-/

namespace HeadJob
namespace Document

variable {name text : Text} {d : Document}

/-- A document holds what a reader finds in lines without comments. -/
theorem exists_excerpt_of_ofText (h : ofText name text = .ok d) :
    ∃ x, Excerpt.ofLines name text.lines = .ok x ∧ d.settings = x.body.contents.settings ∧
      d.nested = x.body.contents.nested ∧ ∀ l ∈ x.body.lines, '\n' ∉ l ∧ l.stripComment = l := by
  unfold ofText at h
  split at h
  · cases h
  · next x hx =>
    cases h
    obtain ⟨header, -, rfl⟩ := Excerpt.ofLines_eq_ok hx
    exact ⟨_, hx, rfl, rfl, (notMem_atHeader (fun _ => Text.notMem_of_mem_lines) header).1⟩

/-- Every value was read from lines of the block that follow one another.  One that stood on a single
line is balanced, and one that stood on several lines, of which none but the last leaves a quote open,
exactly if these are. -/
theorem exists_spread_of_ofText (h : ofText name text = .ok d) :
    ∃ x, Excerpt.ofLines name text.lines = .ok x ∧ ∀ e ∈ d.settings.entries, ∃ s : Spread,
      s.StandsIn e.1 (Text.said x.body.lines) ∧ s.text = e.2 ∧ s.IsRead ∧
        (s.ClosesQuotes → (e.2.IsBalanced ↔ s.IsEven)) := by
  obtain ⟨x, hx, hsettings, -, hlines⟩ := exists_excerpt_of_ofText h
  refine ⟨x, hx, fun e he => ?_⟩
  rw [hsettings, Body.contents, BodyReader.settings_finish] at he
  have haccounts := BodyReader.Accounts.empty.feedAll hlines BodyReader.Tidy.empty x.body.firstLine
  obtain ⟨s, hstands, htext, hread⟩ := haccounts.entries e he
  rw [← htext]
  exact ⟨s, hstands, rfl, hread, Spread.isBalanced_text_iff⟩

theorem exists_spread_of_ofText_list :
    ∃ d, ofText "k8s".toList "k8s \x7b\n  a = [\n  [1]\n  ]\n\x7d\n".toList = .ok d ∧
      d.settings.entries = [(['a'], "[ [1] ]".toList)] ∧
      ∃ x, Excerpt.ofLines "k8s".toList
          (Text.lines "k8s \x7b\n  a = [\n  [1]\n  ]\n\x7d\n".toList) = .ok x ∧
        ∀ e ∈ d.settings.entries, ∃ s : Spread,
          s.StandsIn e.1 (Text.said x.body.lines) ∧ s.text = e.2 ∧ s.IsRead ∧
            (s.ClosesQuotes → (e.2.IsBalanced ↔ s.IsEven)) := by
  obtain ⟨d, hd, hentries⟩ :
      ∃ d, ofText "k8s".toList "k8s \x7b\n  a = [\n  [1]\n  ]\n\x7d\n".toList = .ok d ∧
        d.settings.entries = [(['a'], "[ [1] ]".toList)] := ⟨_, rfl, rfl⟩
  exact ⟨d, hd, hentries, exists_spread_of_ofText hd⟩

/-- What comes after the mark that closes a list belongs to its value all the same. -/
theorem not_isBalanced_of_list :
    ∃ d, ofText "k8s".toList "k8s \x7b\n  a = [\n  ] ]\n\x7d\n".toList = .ok d ∧
      ¬∀ e ∈ d.settings.entries, e.2.IsBalanced := by
  have hread : ofText "k8s".toList "k8s \x7b\n  a = [\n  ] ]\n\x7d\n".toList =
      .ok ⟨"k8s".toList, .ofList [(['a'], "[ ] ]".toList)], [], [], [], []⟩ := rfl
  refine ⟨_, hread, ?_⟩
  decide

/-- The lines that are carried through are balanced exactly if every line of the block keeps them so,
where it is read. -/
theorem areBalanced_nested_iff (h : ofText name text = .ok d) :
    ∃ x, Excerpt.ofLines name text.lines = .ok x ∧
      (Text.AreBalanced d.nested ↔ ∀ a t b, x.body.lines = a ++ t :: b →
        (BodyReader.feedAll {} x.body.firstLine a).reading.Keeps t.trim) := by
  obtain ⟨x, hx, -, hnested, -⟩ := exists_excerpt_of_ofText h
  have hempty : BodyReader.Even {} := ⟨by decide, rfl⟩
  refine ⟨x, hx, ?_⟩
  rw [hnested, Body.contents, BodyReader.areBalanced_finish_iff,
    BodyReader.even_feedAll_iff (Int.le_of_eq hempty.depth)]
  exact and_iff_right hempty

theorem areBalanced_nested_iff_of_sub_block :
    ∃ d, ofText "k8s".toList "k8s \x7b\n  x \x7b\n  y = 1\n\x7d\n".toList = .ok d ∧
      d.nested = ["x \x7b".toList, "y = 1".toList, ['\x7d']] ∧
      ∃ x, Excerpt.ofLines "k8s".toList
          (Text.lines "k8s \x7b\n  x \x7b\n  y = 1\n\x7d\n".toList) = .ok x ∧
        (Text.AreBalanced d.nested ↔ ∀ a t b, x.body.lines = a ++ t :: b →
          (BodyReader.feedAll {} x.body.firstLine a).reading.Keeps t.trim) := by
  obtain ⟨d, hd, hnested⟩ :
      ∃ d, ofText "k8s".toList "k8s \x7b\n  x \x7b\n  y = 1\n\x7d\n".toList = .ok d ∧
        d.nested = ["x \x7b".toList, "y = 1".toList, ['\x7d']] := ⟨_, rfl, rfl⟩
  exact ⟨d, hd, hnested, areBalanced_nested_iff hd⟩

/-- A line without a key is dropped, but not the line that closes its brace. -/
theorem not_areBalanced_of_keyless :
    ∃ d, ofText "k8s".toList "k8s \x7b\n  = \x7b\n  \x7d\n\x7d\n".toList = .ok d ∧
      ¬Text.AreBalanced d.nested := by
  have hread : ofText "k8s".toList "k8s \x7b\n  = \x7b\n  \x7d\n\x7d\n".toList =
      .ok ⟨"k8s".toList, ∅, [['\x7d']], [], [], [.notAssignment 2 "= \x7b".toList]⟩ := rfl
  exact ⟨_, hread, by decide⟩

end Document
end HeadJob
