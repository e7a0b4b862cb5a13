import HeadJob.Proofs.Config.Body

/-!
Two readings of a block, side by side.

What two lines must have in common for a block to be read alike from either is said of single lines
without their comments.  From it follows that two lists of such lines have the same header, and bodies
that end on lines that belong together, also where one list has lines more in which no brace stands.
-/

namespace HeadJob

open Delimiter (braces)
open Text (isBlank isAllBlank)

/-- What follows the closing brace on its line is scanned as a line of its own. -/
theorem Delimiter.stripComment_drop_of_closed {depth pos : Nat} {t : Text}
    (h : braces.closingOf depth t.stripComment = .closed pos) :
    Text.stripComment (t.drop (pos + 1)) = t.stripComment.drop (pos + 1) := by
  obtain ⟨a, b, -, ht, hpos, hout, -⟩ := exists_of_closingFrom_eq_closed h
  rw [Nat.zero_add] at hpos
  have hsplit : t.stripComment = (a ++ ['}']) ++ b := by
    rw [ht, List.append_assoc]
    rfl
  have hlength : (a ++ ['}']).length = pos + 1 := by
    rw [List.length_append, hpos]
    rfl
  refine Text.stripComment_drop ?_ ?_
  · rw [hsplit, List.length_append, hlength]
    exact Nat.le_add_right _ _
  · rw [hsplit, ← hlength, List.take_left, Scan.run_append]
    have hquote : ((Scan.start.run a).quoteAfter '}') = none := by
      rw [Scan.isOutside, Bool.and_eq_true, Option.isNone_iff_eq_none,
        Option.isNone_iff_eq_none] at hout
      exact hout.2
    rw [Scan.run_cons, Scan.next, hquote]
    rfl

/-! ## The text of a header -/

namespace Header

variable {name : Text}

/-- The text that a header takes from the start of its line: blanks may stand in front of the name and
after it. -/
def IsFront (name front : Text) : Prop :=
  ∃ a b, isAllBlank a = true ∧ isAllBlank b = true ∧ front = a ++ name ++ b ++ ['{']

theorem width?_eq_some_iff (hname : ∀ c ∈ name, Placeholder.isKeyChar c = true) {line : Text}
    {width : Nat} :
    width? name line = some width ↔
      ∃ front, IsFront name front ∧ front <+: line ∧ front.length = width := by
  rw [width?_eq_some_iff_exists]
  constructor
  · rintro ⟨rest, t, hrest, ht, rfl⟩
    obtain ⟨a, ha, hline⟩ := Text.exists_blanks_append_trimStart line
    obtain ⟨b, hb, hafter⟩ := Text.exists_blanks_append_trimStart rest
    rw [ht] at hafter
    have hall : line = a ++ name ++ b ++ ['{'] ++ t := by
      rw [← hline, hrest, ← hafter]
      simp
    refine ⟨_, ⟨a, b, ha, hb, rfl⟩, ⟨t, hall.symm⟩, ?_⟩
    rw [hall]
    simp only [List.length_append]
    omega
  · rintro ⟨_, ⟨a, b, ha, hb, rfl⟩, ⟨t, rfl⟩, rfl⟩
    have hbrace : Text.trimStart ('{' :: t) = '{' :: t := Text.trimStart_cons (by decide) t
    have hafter : Text.trimStart (b ++ '{' :: t) = '{' :: t := by
      rw [Text.trimStart_append_of_isAllBlank hb, hbrace]
    have hline : Text.trimStart (a ++ name ++ b ++ ['{'] ++ t) =
        Text.trimStart (name ++ (b ++ '{' :: t)) := by
      rw [← Text.trimStart_append_of_isAllBlank ha (name ++ (b ++ '{' :: t))]
      simp
    have hwidth : (a ++ name ++ b ++ ['{']).length =
        (a ++ name ++ b ++ ['{'] ++ t).length - t.length := by
      simp only [List.length_append]
      omega
    cases name with
    | nil =>
      rw [List.nil_append, hafter] at hline
      exact ⟨'{' :: t, t, hline, hbrace, hwidth⟩
    | cons c name =>
      have hc := Placeholder.isBlank_of_isKeyChar (hname c List.mem_cons_self)
      rw [List.cons_append, Text.trimStart_cons hc] at hline
      exact ⟨b ++ '{' :: t, t, hline, hafter, hwidth⟩

theorem IsFront.plain (hname : ∀ c ∈ name, Placeholder.isKeyChar c = true) {front : Text}
    (h : IsFront name front) : ∀ c ∈ front, Quote.ofMark? c = none ∧ c ≠ '\\' := by
  obtain ⟨a, b, ha, hb, rfl⟩ := h
  have hblank : ∀ c, isBlank c = true → Quote.ofMark? c = none ∧ c ≠ '\\' := fun c hc =>
    ⟨Scan.ofMark?_eq_none_of_isBlank hc, Scan.ne_of_isBlank hc (by decide)⟩
  have hkey : ∀ c, Placeholder.isKeyChar c = true → Quote.ofMark? c = none ∧ c ≠ '\\' := by
    intro c hc
    have hne : ∀ d, Placeholder.isKeyChar d = false → c ≠ d := by
      rintro d hd rfl
      rw [hc] at hd
      cases hd
    exact ⟨by rw [Quote.ofMark?, if_neg (hne _ (by decide)), if_neg (hne _ (by decide))],
      hne _ (by decide)⟩
  intro c hc
  simp only [List.mem_append, List.mem_singleton] at hc
  rcases hc with ((hc | hc) | hc) | rfl
  · exact hblank c (List.all_eq_true.1 ha c hc)
  · exact hkey c (hname c hc)
  · exact hblank c (List.all_eq_true.1 hb c hc)
  · decide

/-- What follows a header on its line is scanned as a line of its own. -/
theorem stripComment_drop_of_width? (hname : ∀ c ∈ name, Placeholder.isKeyChar c = true)
    {line : Text} {width : Nat} (h : width? name line.stripComment = some width) :
    Text.stripComment (line.drop width) = line.stripComment.drop width := by
  obtain ⟨front, hfront, hpre, rfl⟩ := (width?_eq_some_iff hname).1 h
  refine Text.stripComment_drop hpre.length_le ?_
  obtain ⟨t, ht⟩ := hpre
  rw [← ht, List.take_left]
  exact Scan.run_start_of_plain (hfront.plain hname)

/-- Two lines, without comments, that the search for a header takes for the same. -/
structure Alike (name line line' : Text) : Prop where
  width : width? name line' = width? name line
  /-- A brace may complete the header of a name on an earlier line. -/
  brace : width? [] line' = width? [] line
  blank : isAllBlank line' = isAllBlank line
  waits : Text.trim line' = name ∧ line' ≠ [] ↔ Text.trim line = name ∧ line ≠ []
  depth : braces.netChange line' = braces.netChange line

theorem header?_next_eq_of_alike {name : Text} {raw raw' : Text}
    (h : Alike name raw.stripComment raw'.stripComment) (s : Search) (index : Nat) :
    s.header? name index raw'.stripComment = s.header? name index raw.stripComment ∧
      s.next name index raw'.stripComment = s.next name index raw.stripComment := by
  have hending : ending? name s.waiting index raw'.stripComment =
      ending? name s.waiting index raw.stripComment := by
    unfold ending?
    rw [h.width, h.brace]
  have hwaiting : waitingAfter name s.waiting index raw'.stripComment =
      waitingAfter name s.waiting index raw.stripComment := by
    unfold waitingAfter
    rw [h.blank, if_congr h.waits rfl rfl]
  exact ⟨by rw [Search.header?, Search.header?, hending],
    by rw [Search.next, Search.next, hwaiting, h.depth]⟩

theorem width?_of_header? {s : Search} {index : Nat} {line : Text} {header : Header}
    (h : s.header? name index line = some header) :
    header.line = index ∧
      (width? name line = some header.width ∨ width? [] line = some header.width) := by
  unfold Search.header? ending? at h
  split at h
  · split at h
    · next start width _ hwidth =>
      cases h
      exact ⟨rfl, .inr hwidth⟩
    · obtain ⟨width, hwidth, rfl⟩ := Option.map_eq_some_iff.1 h
      exact ⟨rfl, .inl hwidth⟩
  · cases h

/-- A header ends on one of the lines, with the name or with the brace alone. -/
theorem exists_of_find {s : Search} {index : Nat} {ls : List Text} {header : Header}
    (h : find name s.depth s.waiting index ls = some header) :
    ∃ n raw rest, header.line = index + n ∧ ls.drop n = raw :: rest ∧
      (width? name raw.stripComment = some header.width ∨
        width? [] raw.stripComment = some header.width) := by
  induction ls generalizing s index with
  | nil => cases h
  | cons raw ls ih =>
    rw [Search.find_cons] at h
    cases hheader : s.header? name index raw.stripComment with
    | none =>
      rw [hheader, Option.none_or] at h
      obtain ⟨n, raw', rest, hline, hdrop, hwidth⟩ := ih h
      exact ⟨n + 1, raw', rest, by omega, hdrop, hwidth⟩
    | some found =>
      rw [hheader, Option.some_or, Option.some_inj] at h
      subst h
      obtain ⟨hline, hwidth⟩ := width?_of_header? hheader
      exact ⟨0, raw, ls, hline, rfl, hwidth⟩

end Header

/-! ## Lists of lines -/

/-- Lines that belong together one by one, where the second list may have lines in between that `I`
allows. -/
inductive Aligned (R : Text → Text → Prop) (I : Text → Prop) : List Text → List Text → Prop
  | nil : Aligned R I [] []
  | cons {l l' : Text} {ls ls' : List Text} (h : R l l') (hs : Aligned R I ls ls') :
      Aligned R I (l :: ls) (l' :: ls')
  | insert {l : Text} {ls ls' : List Text} (h : I l) (hs : Aligned R I ls ls') :
      Aligned R I ls (l :: ls')

namespace Aligned

variable {R R' : Text → Text → Prop} {I I' : Text → Prop} {a b a' b' : List Text}

theorem mono (hR : ∀ l l', R l l' → R' l l') (hI : ∀ l, I l → I' l) (h : Aligned R I a b) :
    Aligned R' I' a b := by
  induction h with
  | nil => exact .nil
  | cons hl _ ih => exact .cons (hR _ _ hl) ih
  | insert hl _ ih => exact .insert (hI _ hl) ih

theorem refl (hR : ∀ l, R l l) (ls : List Text) : Aligned R I ls ls := by
  induction ls with
  | nil => exact .nil
  | cons l ls ih => exact .cons (hR l) ih

theorem append (h : Aligned R I a b) (h' : Aligned R I a' b') :
    Aligned R I (a ++ a') (b ++ b') := by
  induction h with
  | nil => exact h'
  | cons hl _ ih => exact .cons hl ih
  | insert hl _ ih => exact .insert hl ih

theorem drop (hI : ∀ l, ¬I l) (h : Aligned R I a b) (n : Nat) :
    Aligned R I (a.drop n) (b.drop n) := by
  induction h generalizing n with
  | nil => simpa using .nil
  | cons hl hs ih =>
    cases n with
    | zero => exact .cons hl hs
    | succ n => exact ih n
  | insert hl => exact absurd hl (hI _)

theorem length_eq (hI : ∀ l, ¬I l) (h : Aligned R I a b) : b.length = a.length := by
  induction h with
  | nil => rfl
  | cons _ _ ih => rw [List.length_cons, List.length_cons, ih]
  | insert hl => exact absurd hl (hI _)

end Aligned

/-! ## Bodies -/

namespace Ending

variable {R B : Text → Text → Prop} {I J : Text → Prop}

/-- What lines have to satisfy for two bodies to end together.  Lines that belong together close at the
same depth or not at all; `B` is what is then known of the lines in the bodies, and `J` of the lines
that one body has more. -/
structure Respects (R B : Text → Text → Prop) (I J : Text → Prop) : Prop where
  line : ∀ l l', R l l' → ∀ depth,
    (∃ m, braces.closingOf depth l.stripComment = .still m ∧
      braces.closingOf depth l'.stripComment = .still m ∧ B l.stripComment l'.stripComment) ∨
    ∃ n n', braces.closingOf depth l.stripComment = .closed n ∧
      braces.closingOf depth l'.stripComment = .closed n' ∧
      B (l.stripComment.take n) (l'.stripComment.take n') ∧
      isAllBlank (l'.stripComment.drop (n' + 1)) = isAllBlank (l.stripComment.drop (n + 1))
  insert : ∀ l, I l →
    (∀ depth, braces.closingOf depth l.stripComment = .still depth) ∧ J l.stripComment

/-- Two bodies end together: both with their files, or both at a closing brace. -/
inductive Alike (R : Text → Text → Prop) (I : Text → Prop) : Ending → Ending → Prop
  | unterminated : Alike R I .unterminated .unterminated
  | closed {line line' : Nat} {trailing trailing' : Text} {rest rest' : List Text}
      (htrailing : isAllBlank trailing'.stripComment = isAllBlank trailing.stripComment)
      (hrest : Aligned R I rest rest') :
      Alike R I (.closed line trailing rest) (.closed line' trailing' rest')

theorem read_aligned (h : Respects R B I J) {a b : List Text} (hab : Aligned R I a b)
    (depth i j : Nat) :
    Aligned B J (read depth i a).1 (read depth j b).1 ∧
      Alike R I (read depth i a).2 (read depth j b).2 := by
  induction hab generalizing depth i j with
  | nil => exact ⟨.nil, .unterminated⟩
  | cons hl hs ih =>
    rcases h.line _ _ hl depth with ⟨m, hm, hm', hB⟩ | ⟨n, n', hn, hn', hB, hblank⟩
    · simp only [read, hm, hm']
      exact ⟨.cons hB (ih m _ _).1, (ih m _ _).2⟩
    · simp only [read, hn, hn']
      refine ⟨.cons hB .nil, .closed ?_ hs⟩
      rw [Delimiter.stripComment_drop_of_closed hn, Delimiter.stripComment_drop_of_closed hn',
        hblank]
  | insert hl _ ih =>
    obtain ⟨hstill, hJ⟩ := h.insert _ hl
    simp only [read, hstill depth]
    exact ⟨.insert hJ (ih depth i _).1, (ih depth i _).2⟩

/-- A body ends on the line that its closing brace stands on. -/
theorem line_of_read_eq_closed {depth index line : Nat} {ls rest : List Text} {trailing : Text}
    (h : (read depth index ls).2 = .closed line trailing rest) :
    line + 1 = index + (read depth index ls).1.length := by
  induction ls generalizing depth index with
  | nil => cases h
  | cons raw ls ih =>
    rw [read] at h ⊢
    split at h
    · next n hn =>
      cases h
      rfl
    · next m hm =>
      have hline := ih h
      simp only [List.length_cons]
      omega

end Ending

namespace Excerpt

variable {R B : Text → Text → Prop} {I J : Text → Prop}

theorem atHeader_of_drop {lines rest : List Text} {raw : Text} {header : Header}
    (h : lines.drop header.line = raw :: rest) :
    atHeader lines header =
      around (lines.take header.start) header.line (raw.drop header.width :: rest) := by
  rw [atHeader_eq_around, h]

/-- From lines that belong together come bodies that do, as many lines after the block, and the same
kinds of warnings. -/
theorem around_aligned (h : Ending.Respects R B I J) {source source' : List Text}
    (hs : Aligned R I source source') (before before' : List Text) (line line' : Nat) :
    Aligned B J (around before line source).body.lines (around before' line' source').body.lines ∧
      Aligned (fun _ _ => True) I (around before line source).after
        (around before' line' source').after ∧
      (around before' line' source').warnings.map Warning.kind =
        (around before line source).warnings.map Warning.kind := by
  obtain ⟨hbody, hending⟩ := Ending.read_aligned h hs 1 line line'
  rw [body_around, body_around]
  refine ⟨hbody, ?_⟩
  have htrue : ∀ {a b : List Text}, Aligned R I a b → Aligned (fun _ _ => True) I a b :=
    Aligned.mono (fun _ _ _ => trivial) fun _ => id
  rw [around, around]
  cases hread : Ending.read 1 line source with | mk body ending =>
  cases hread' : Ending.read 1 line' source' with | mk body' ending' =>
  rw [hread, hread'] at hending
  cases hending with
  | unterminated => exact ⟨.nil, rfl⟩
  | closed htrailing hrest =>
    simp only [htrailing]
    split
    · exact ⟨htrue hrest, rfl⟩
    · exact ⟨.cons trivial (htrue hrest), rfl⟩

/-- The lines that the warnings of an excerpt name are told by their kinds. -/
theorem line?_of_mem_warnings_around {before : List Text} {line : Nat} {source : List Text}
    {w : Warning} (hw : w ∈ (around before line source).warnings) :
    w.line? = some (if w.kind = .trailingContent
      then line + (around before line source).body.lines.length else line + 1) := by
  rw [body_around]
  rw [around] at hw
  cases hread : Ending.read 1 line source with | mk body ending =>
  simp only [hread] at hw
  cases ending with
  | unterminated =>
    rw [List.mem_singleton.1 hw]
    rfl
  | closed closing trailing rest =>
    have hline := Ending.line_of_read_eq_closed (congrArg Prod.snd hread)
    dsimp only at hw
    split at hw
    · cases hw
    · rw [List.mem_singleton.1 hw]
      rw [hread] at hline
      exact congrArg some hline

end Excerpt
end HeadJob
