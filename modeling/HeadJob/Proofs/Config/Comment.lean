import Mathlib.Order.Bounds.Defs
import HeadJob.Proofs.Config.Scan
import HeadJob.Proofs.Text.Byte

/-!
Where a comment begins, told by the characters outside quotes.

A comment is cut off by one scan of the line, and the characters outside quotes are listed by another,
each with the byte it stands at.  The two agree: the text that is kept ends at the first byte where a
slash outside quotes is followed by another one, and the characters listed for the kept text are those
listed for the whole line in front of that byte.
-/

namespace HeadJob

namespace Scan

open Text (utf8Size)

variable {s : Scan} {n i : Nat} {c : Char} {t a b : Text}

/-! ## The characters outside quotes and their places -/

theorem outsideFrom_append (s : Scan) (n : Nat) (a b : Text) :
    s.outsideFrom n (a ++ b) = s.outsideFrom n a ++ (s.run a).outsideFrom (n + utf8Size a) b := by
  induction a generalizing s n with
  | nil => rfl
  | cons c a ih =>
    rw [List.cons_append, outsideFrom, outsideFrom]
    simp only [ih, run_cons, Text.utf8Size_cons, Nat.add_assoc]
    split
    · rfl
    · rfl

/-- A character is listed at its place, if it stands outside quotes there. -/
theorem mem_outsideFrom_iff :
    (i, c) ∈ s.outsideFrom n t ↔
      ∃ a b, t = a ++ c :: b ∧ i = n + utf8Size a ∧ (s.run a).isOutside c = true := by
  constructor
  · intro h
    induction t generalizing s n with
    | nil => cases h
    | cons d t ih =>
      have hrest : (i, c) ∈ (s.next d).outsideFrom (n + d.utf8Size) t →
          ∃ a b, d :: t = a ++ c :: b ∧ i = n + utf8Size a ∧ (s.run a).isOutside c = true := by
        intro h
        obtain ⟨a, b, rfl, rfl, hout⟩ := ih h
        exact ⟨d :: a, b, rfl, Nat.add_assoc _ _ _, hout⟩
      rw [outsideFrom] at h
      split at h
      · next hd =>
        rcases List.mem_cons.1 h with heq | h
        · cases heq
          exact ⟨[], t, rfl, rfl, hd⟩
        · exact hrest h
      · exact hrest h
  · rintro ⟨a, b, rfl, rfl, hout⟩
    rw [outsideFrom_append, List.mem_append, outsideFrom, if_pos hout]
    exact .inr List.mem_cons_self

theorem place_of_mem_outsideFrom {e : Nat × Char} (h : e ∈ s.outsideFrom n t) :
    n ≤ e.1 ∧ e.1 < n + utf8Size t := by
  obtain ⟨a, b, rfl, hi, -⟩ := mem_outsideFrom_iff.1 h
  have hpos := e.2.utf8Size_pos
  rw [Text.utf8Size_append, Text.utf8Size_cons]
  omega

/-- The characters listed for the beginning of a text are those in front of its end. -/
theorem outsideFrom_eq_filter (s : Scan) (n : Nat) (a b : Text) :
    s.outsideFrom n a = (s.outsideFrom n (a ++ b)).filter fun e => e.1 < n + utf8Size a := by
  have hfront : (s.outsideFrom n a).filter (fun e => e.1 < n + utf8Size a) = s.outsideFrom n a :=
    List.filter_eq_self.2 fun e he => decide_eq_true (place_of_mem_outsideFrom he).2
  have hback : ((s.run a).outsideFrom (n + utf8Size a) b).filter (fun e => e.1 < n + utf8Size a) = [] :=
    List.filter_eq_nil_iff.2 fun e he hlt =>
      absurd (of_decide_eq_true hlt) (Nat.not_lt.2 (place_of_mem_outsideFrom he).1)
  rw [outsideFrom_append, List.filter_append, hfront, hback, List.append_nil]

/-! ## The first comment -/

/-- A comment that begins outside quotes is no earlier than the end of what is kept. -/
theorem beforeComment_isPrefix_of_quote_eq_none (h : (s.run a).quote = none) :
    (s.beforeComment (a ++ '/' :: '/' :: b)).1 <+: a := by
  induction a generalizing s with
  | nil =>
    rw [List.nil_append, beforeComment, if_pos ⟨h, rfl, rfl⟩]
  | cons c a ih =>
    rw [List.cons_append, beforeComment]
    split
    · exact List.nil_prefix
    · exact (List.prefix_cons_inj c).2 (ih h)

/-- Cutting off a comment twice is cutting it off once, whatever quote the text begins in. -/
theorem beforeComment_beforeComment (s : Scan) (t : Text) :
    s.beforeComment (s.beforeComment t).1 = s.beforeComment t := by
  have hbare := isBare_beforeComment s t
  refine Prod.ext hbare ?_
  rw [quote_beforeComment_of_isBare hbare, quote_beforeComment]

end Scan

namespace Text

variable {line : Text} {i : Nat}

/-- A slash outside quotes stands at a byte of the line, and another one at the next byte. -/
def SlashesAt (line : Text) (i : Nat) : Prop :=
  (i, '/') ∈ line.outsideQuotes ∧ (i + 1, '/') ∈ line.outsideQuotes

theorem slashesAt_iff :
    SlashesAt line i ↔
      ∃ a b, line = a ++ '/' :: '/' :: b ∧ i = utf8Size a ∧ (Scan.start.run a).quote = none := by
  have hslash : ∀ s : Scan, s.isOutside '/' = s.quote.isNone := Scan.isOutside_of_plain (by decide)
  constructor
  · rintro ⟨hfirst, hsecond⟩
    obtain ⟨a, b, hline, hi, hout⟩ := Scan.mem_outsideFrom_iff.1 hfirst
    obtain ⟨a', b', hline', hi', -⟩ := Scan.mem_outsideFrom_iff.1 hsecond
    rw [Nat.zero_add] at hi hi'
    have ha' : a ++ ['/'] = a' := by
      have hparts : (a ++ ['/']) ++ b = a' ++ '/' :: b' := by
        rw [List.append_assoc]
        exact hline.symm.trans hline'
      refine eq_of_utf8Size_eq hparts ?_
      rw [utf8Size_append, ← hi, ← hi']
      rfl
    subst ha'
    refine ⟨a, b', by rw [hline', List.append_assoc]; rfl, hi, ?_⟩
    rwa [hslash, Option.isNone_iff_eq_none] at hout
  · rintro ⟨a, b, rfl, rfl, hquote⟩
    have hnext : ((Scan.start.run a).next '/').quote = none := by
      rw [Scan.next_of_plain (by decide) (by decide)]
      exact hquote
    refine ⟨Scan.mem_outsideFrom_iff.2 ⟨a, '/' :: b, rfl, (Nat.zero_add _).symm, ?_⟩,
      Scan.mem_outsideFrom_iff.2 ⟨a ++ ['/'], b, by rw [List.append_assoc]; rfl, ?_, ?_⟩⟩
    · rw [hslash, hquote]
      rfl
    · rw [utf8Size_append, Nat.zero_add]
      rfl
    · rw [Scan.run_append, hslash, Scan.run_cons, Scan.run_nil, hnext]
      rfl

/-- What is kept of a line ends where the first comment begins. -/
theorem isLeast_utf8Size_stripComment (h : line.stripComment ≠ line) :
    IsLeast {i | SlashesAt line i} line.stripComment.utf8Size := by
  constructor
  · rcases Scan.beforeComment_cases Scan.start line with hall | ⟨r, hline, hquote⟩
    · exact absurd hall h
    · exact slashesAt_iff.2 ⟨line.stripComment, r, hline, rfl, hquote⟩
  · rintro i hi
    obtain ⟨a, b, hline, rfl, hquote⟩ := slashesAt_iff.1 hi
    obtain ⟨r, hr⟩ := Scan.beforeComment_isPrefix_of_quote_eq_none (b := b) hquote
    rw [← hline] at hr
    rw [← hr, utf8Size_append]
    exact Nat.le_add_right _ _

theorem not_slashesAt_of_stripComment_eq (h : line.stripComment = line) (i : Nat) :
    ¬SlashesAt line i := by
  intro hi
  obtain ⟨a, b, hline, -, hquote⟩ := slashesAt_iff.1 hi
  exact Scan.isBare_iff.1 h a b hline hquote

/-- A line is kept up to the first byte at which two slashes outside quotes meet, or all of it if there
is none.  The characters outside quotes that are listed for the kept text are those listed for the line
in front of that byte.  Where a quote is carried into the line, cutting off its comment again changes
neither the text nor the quote at its end. -/
theorem stripComment_agrees_with_outsideQuotes (line : Text) (carried : Option Quote) :
    line.stripComment <+: line ∧
      (IsLeast {i | SlashesAt line i} line.stripComment.utf8Size ∨
        (∀ i, ¬SlashesAt line i) ∧ line.stripComment = line) ∧
      line.stripComment.outsideQuotes =
        line.outsideQuotes.filter (fun e => e.1 < line.stripComment.utf8Size) ∧
      Scan.beforeComment ⟨carried, false⟩ (Scan.beforeComment ⟨carried, false⟩ line).1 =
        Scan.beforeComment ⟨carried, false⟩ line := by
  have hkept : line.stripComment <+: line := Scan.beforeComment_isPrefix Scan.start line
  refine ⟨hkept, ?_, ?_, Scan.beforeComment_beforeComment _ line⟩
  · by_cases h : line.stripComment = line
    · exact .inr ⟨not_slashesAt_of_stripComment_eq h, h⟩
    · exact .inl (isLeast_utf8Size_stripComment h)
  · obtain ⟨comment, hline⟩ := hkept
    have hfilter := Scan.outsideFrom_eq_filter Scan.start 0 line.stripComment comment
    rwa [hline, Nat.zero_add] at hfilter

end Text
end HeadJob
