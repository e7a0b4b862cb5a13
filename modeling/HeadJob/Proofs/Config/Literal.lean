import HeadJob.Proofs.Config.Alike

/-!
Nothing that a string literal holds can move the boundaries of a block.

Inside its quotes a text is passed over whatever it says: a brace in it is no brace, two slashes begin no
comment, and what looks like a header is none.  So another text in the same quotes leaves a block where
it was.
-/

namespace HeadJob

open Delimiter (braces)
open Text (isAllBlank)

namespace Quote

/-- The text can stand between two marks of the quote and ends nowhere in between. -/
def Holds (q : Quote) (t : Text) : Prop := q.mark ∉ t ∧ '\\' ∉ t

instance (q : Quote) (t : Text) : Decidable (q.Holds t) := inferInstanceAs (Decidable (_ ∧ _))

def literal (q : Quote) (t : Text) : Text := q.mark :: t ++ [q.mark]

theorem mark_ne_slash (q : Quote) : q.mark ≠ '/' := by cases q <;> decide

theorem isBlank_mark (q : Quote) : Text.isBlank q.mark = false := by cases q <;> decide

theorem literal_append (q : Quote) (t r : Text) :
    q.literal t ++ r = q.mark :: (t ++ [q.mark] ++ r) := rfl

end Quote

/-! ## Scanning a literal -/

namespace Scan

variable {q : Quote} {t : Text}

theorem next_inside {c : Char} (hc : c ≠ q.mark) (hb : c ≠ '\\') :
    (⟨some q, false⟩ : Scan).next c = ⟨some q, false⟩ := by
  simp [next, quoteAfter, hc, hb]

/-- A text inside quotes leaves the scan there, and is neither seen nor cut off. -/
theorem scan_inside (h : q.Holds t) :
    (⟨some q, false⟩ : Scan).run t = ⟨some q, false⟩ ∧
      (⟨some q, false⟩ : Scan).outside t = [] ∧ (⟨some q, false⟩ : Scan).IsBare t := by
  induction t with
  | nil => exact ⟨rfl, rfl, isBare_nil _⟩
  | cons c t ih =>
    simp only [Quote.Holds, List.mem_cons, not_or] at h
    have hnext := next_inside (Ne.symm h.1.1) (Ne.symm h.2.1)
    obtain ⟨hrun, houtside, hbare⟩ := ih ⟨h.1.2, h.2.2⟩
    refine ⟨by rw [run_cons, hnext, hrun], ?_, ?_⟩
    · rw [outside, hnext, houtside]
      rfl
    · rw [isBare_cons, hnext]
      exact ⟨fun hc => Option.some_ne_none q hc.1, hbare⟩

theorem scan_literal (h : q.Holds t) :
    start.run (q.literal t) = start ∧ start.outside (q.literal t) = [] ∧
      start.IsBare (q.literal t) := by
  have hopen : start.next q.mark = ⟨some q, false⟩ ∧ start.isOutside q.mark = false := by
    cases q <;> exact ⟨rfl, rfl⟩
  have hclose : (⟨some q, false⟩ : Scan).next q.mark = start := by
    cases q <;> rfl
  obtain ⟨hrun, houtside, hbare⟩ := scan_inside h
  have hmark : [q.mark].head? ≠ some '/' := by simpa using q.mark_ne_slash
  refine ⟨?_, ?_, ?_⟩
  · rw [Quote.literal, List.cons_append, run_cons, hopen.1, run_append, hrun, run_cons, hclose,
      run_nil]
  · rw [Quote.literal, List.cons_append, outside, hopen.1, hopen.2, outside_append, houtside, hrun]
    cases q <;> rfl
  · rw [Quote.literal, List.cons_append, isBare_cons, hopen.1, isBare_append hmark, hrun, isBare_cons]
    exact ⟨fun hc => q.mark_ne_slash hc.2.1, hbare, fun hc => Option.some_ne_none q hc.1,
      isBare_nil _⟩

theorem escaped_run {s : Scan} (hs : s.escaped = false) (h : t.getLast? ≠ some '\\') :
    (s.run t).escaped = false := by
  rcases List.eq_nil_or_concat' t with rfl | ⟨t, c, rfl⟩
  · exact hs
  · rw [List.getLast?_concat] at h
    rw [run_append]
    simpa [next] using h

end Scan

/-! ## Lines with another text in the quotes -/

/-- Two lines without comments that differ in the text of one literal at most. -/
inductive Text.Requoted : Text → Text → Prop
  | refl (t : Text) : Requoted t t
  | literal (p : Text) (q : Quote) {s s' : Text} (r : Text) (hp : Scan.start.run p = Scan.start)
      (hs : q.Holds s) (hs' : q.Holds s') :
      Requoted (p ++ q.literal s ++ r) (p ++ q.literal s' ++ r)

namespace Text.Requoted

variable {l l' : Text}

/-- A literal that begins outside quotes stays as it is if no comment comes before it, and goes with the
comment otherwise. -/
theorem stripComment_literal {p : Text} (hp : (Scan.start.beforeComment p).2 = none)
    (hlast : p.getLast? ≠ some '\\') {q : Quote} {s s' : Text} (hs : q.Holds s) (hs' : q.Holds s')
    (r : Text) :
    Requoted (p ++ q.literal s ++ r).stripComment (p ++ q.literal s' ++ r).stripComment := by
  have hstrip : ∀ t : Text, (p ++ q.literal t ++ r).stripComment =
      if Scan.start.IsBare p then p ++ ((Scan.start.run p).beforeComment (q.literal t ++ r)).1
      else p.stripComment := by
    intro t
    rw [List.append_assoc]
    exact Scan.beforeComment_append (.inr (by simpa [Quote.literal] using q.mark_ne_slash))
  rw [hstrip, hstrip]
  by_cases hbare : Scan.start.IsBare p
  · have hrun : Scan.start.run p = Scan.start := by
      rw [Scan.quote_beforeComment_of_isBare hbare] at hp
      have hescaped := Scan.escaped_run (s := Scan.start) rfl hlast
      generalize Scan.start.run p = s at hp hescaped
      cases s
      cases hp
      cases hescaped
      rfl
    have hrest : ∀ {t : Text}, q.Holds t → (Scan.start.beforeComment (q.literal t ++ r)).1 =
        q.literal t ++ r.stripComment := by
      intro t ht
      obtain ⟨hlit, -, hlitBare⟩ := Scan.scan_literal ht
      rw [Scan.beforeComment_append (.inl ?_), if_pos hlitBare, hlit]
      · rfl
      · rw [Quote.literal, List.getLast?_concat]
        simpa using q.mark_ne_slash
    rw [if_pos hbare, if_pos hbare, hrun, hrest hs, hrest hs', ← List.append_assoc,
      ← List.append_assoc]
    exact .literal p q r.stripComment hrun hs hs'
  · rw [if_neg hbare, if_neg hbare]
    exact .refl _

variable {name : Text}

/-- A header ends before the first literal of its line. -/
theorem front_isPrefix_iff (hname : ∀ c ∈ name, Placeholder.isKeyChar c = true) {front : Text}
    (h : Header.IsFront name front) (p : Text) (q : Quote) (t : Text) :
    front <+: p ++ q.mark :: t ↔ front <+: p := by
  refine ⟨fun hpre => ?_, fun hpre => hpre.trans (List.prefix_append _ _)⟩
  obtain ⟨u, hu⟩ := hpre
  have hmark : q.mark ∉ front := by
    intro hmem
    have hnone := (h.plain hname _ hmem).1
    rw [Quote.ofMark?_eq_some_iff.2 rfl] at hnone
    cases hnone
  obtain ⟨x, rfl, -⟩ := Text.exists_append_of_notMem hmark hu.symm
  exact List.prefix_append _ _

theorem width?_eq (hname : ∀ c ∈ name, Placeholder.isKeyChar c = true) (h : Requoted l l') :
    Header.width? name l' = Header.width? name l := by
  cases h with
  | refl => rfl
  | literal p q r hp hs hs' =>
    refine Option.ext fun width => ?_
    rw [Header.width?_eq_some_iff hname, Header.width?_eq_some_iff hname]
    refine exists_congr fun front => and_congr_right fun hfront => ?_
    rw [List.append_assoc, List.append_assoc, Quote.literal_append, Quote.literal_append,
      front_isPrefix_iff hname hfront, front_isPrefix_iff hname hfront]

theorem isAllBlank_literal (p : Text) (q : Quote) (s r : Text) :
    isAllBlank (p ++ q.literal s ++ r) = false := by
  simp [isAllBlank, Quote.literal, q.isBlank_mark]

theorem trim_literal_ne (hname : ∀ c ∈ name, Placeholder.isKeyChar c = true) (p : Text) (q : Quote)
    (s r : Text) : trim (p ++ q.literal s ++ r) ≠ name := by
  intro h
  obtain ⟨a, b, ha, hb, hab⟩ := exists_blanks_trim_blanks (p ++ q.literal s ++ r)
  have hmem : q.mark ∈ a ++ trim (p ++ q.literal s ++ r) ++ b := by
    rw [← hab]
    simp [Quote.literal]
  have hblank : ∀ {t : Text}, isAllBlank t = true → q.mark ∉ t := by
    intro t ht hq
    have := List.all_eq_true.1 ht _ hq
    rw [q.isBlank_mark] at this
    cases this
  simp only [List.mem_append, hblank ha, hblank hb, false_or, or_false, h] at hmem
  have hkey := hname _ hmem
  cases q <;> exact absurd hkey (by decide)

theorem outside_eq (h : Requoted l l') : Scan.start.outside l' = Scan.start.outside l := by
  cases h with
  | refl => rfl
  | literal p q r hp hs hs' =>
    obtain ⟨hrun, houtside, -⟩ := Scan.scan_literal hs
    obtain ⟨hrun', houtside', -⟩ := Scan.scan_literal hs'
    rw [Scan.outside_append, Scan.outside_append, Scan.run_append, hp, houtside', hrun',
      Scan.outside_append, Scan.outside_append, Scan.run_append, hp, houtside, hrun]

theorem alike (hname : ∀ c ∈ name, Placeholder.isKeyChar c = true) (h : Requoted l l') :
    Header.Alike name l l' where
  width := h.width?_eq hname
  brace := h.width?_eq fun _ hc => absurd hc List.not_mem_nil
  blank := by
    cases h with
    | refl => rfl
    | literal p q r => rw [isAllBlank_literal, isAllBlank_literal]
  waits := by
    cases h with
    | refl => rfl
    | literal p q r =>
      exact iff_of_false (fun h => trim_literal_ne hname p q _ r h.1)
        fun h => trim_literal_ne hname p q _ r h.1
  depth := by
    rw [Delimiter.netChange_eq_balance, h.outside_eq, Delimiter.netChange_eq_balance]

theorem drop (hname : ∀ c ∈ name, Placeholder.isKeyChar c = true) (h : Requoted l l')
    {width : Nat} (hwidth : Header.width? name l = some width) :
    Requoted (l.drop width) (l'.drop width) := by
  cases h with
  | refl => exact .refl _
  | literal p q r hp hs hs' =>
    obtain ⟨front, hfront, hpre, rfl⟩ := (Header.width?_eq_some_iff hname).1 hwidth
    rw [List.append_assoc, Quote.literal_append, front_isPrefix_iff hname hfront] at hpre
    obtain ⟨p, rfl⟩ := hpre
    rw [Scan.run_append, Scan.run_start_of_plain (hfront.plain hname)] at hp
    have hdrop : ∀ t : Text, (front ++ p ++ q.literal t ++ r).drop front.length =
        p ++ q.literal t ++ r := by
      intro t
      rw [List.append_assoc, List.append_assoc, List.drop_left, List.append_assoc]
    rw [hdrop, hdrop]
    exact .literal p q r hp hs hs'

/-- A line with a literal closes in front of the literal, or after it, or not at all. -/
theorem closingOf_literal {p : Text} (hp : Scan.start.run p = Scan.start) {q : Quote} {s : Text}
    (hs : q.Holds s) (r : Text) (depth : Nat) :
    braces.closingOf depth (p ++ q.literal s ++ r) =
      match braces.closingOf depth p with
      | .still m =>
        match braces.closingOf m r with
        | .still m => .still m
        | .closed n => .closed ((p ++ q.literal s).length + n)
      | .closed n => .closed n := by
  obtain ⟨hrun, houtside, -⟩ := Scan.scan_literal hs
  have hliteral : ∀ m index, braces.closingFrom Scan.start m index (q.literal s) = .still m :=
    fun m index => Delimiter.closingFrom_of_depthAfter_eq_some (by rw [houtside]; rfl)
  rw [Delimiter.closingOf, Delimiter.closingFrom_append, Delimiter.closingFrom_append,
    Scan.run_append, hp, hrun, Nat.zero_add, Delimiter.closingOf]
  cases braces.closingFrom Scan.start depth 0 p with
  | closed n => rfl
  | still m =>
    simp only [hliteral]
    rw [Delimiter.closingFrom_eq, Nat.zero_add]
    rfl

end Text.Requoted

namespace Excerpt

open Text (Requoted)

/-- The lines that are related if they differ in a literal, or in what their comments say. -/
def MayRequote (l l' : Text) : Prop := Requoted l.stripComment l'.stripComment

theorem respects_mayRequote :
    Ending.Respects MayRequote (fun _ _ => True) (fun _ => False) fun _ => False where
  insert := fun _ h => h.elim
  line := by
    intro l l' h depth
    unfold MayRequote at h
    generalize l.stripComment = t at h
    generalize l'.stripComment = t' at h
    cases h with
    | refl =>
      cases hclose : braces.closingOf depth t with
      | still m => exact .inl ⟨m, rfl, rfl, trivial⟩
      | closed n => exact .inr ⟨n, n, rfl, rfl, trivial, rfl⟩
    | literal p q r hp hs hs' =>
      rw [Requoted.closingOf_literal hp hs, Requoted.closingOf_literal hp hs']
      cases hclose : braces.closingOf depth p with
      | closed n =>
        -- the literal follows the closing brace, and is not blank
        refine .inr ⟨n, n, rfl, rfl, trivial, ?_⟩
        have hlt : n + 1 ≤ p.length := by
          have := (Delimiter.lt_length_of_closingFrom hclose).2
          omega
        rw [List.append_assoc, List.append_assoc, List.drop_append_of_le_length hlt,
          List.drop_append_of_le_length hlt, ← List.append_assoc, ← List.append_assoc,
          Requoted.isAllBlank_literal, Requoted.isAllBlank_literal]
      | still m =>
        dsimp only
        cases hrest : braces.closingOf m r with
        | still m => exact .inl ⟨m, rfl, rfl, trivial⟩
        | closed n =>
          refine .inr ⟨_, _, rfl, rfl, trivial, ?_⟩
          rw [Nat.add_assoc, Nat.add_assoc, List.drop_length_add_append,
            List.drop_length_add_append]

theorem mayRequote_drop {name : Text} (hname : ∀ c ∈ name, Placeholder.isKeyChar c = true)
    {l l' : Text} (h : MayRequote l l') {width : Nat}
    (hwidth : Header.width? name l.stripComment = some width ∨
      Header.width? [] l.stripComment = some width) :
    MayRequote (l.drop width) (l'.drop width) := by
  have hdrop : ∀ name : Text, (∀ c ∈ name, Placeholder.isKeyChar c = true) →
      Header.width? name l.stripComment = some width →
        MayRequote (l.drop width) (l'.drop width) := by
    intro name hname hwidth
    have hwidth' : Header.width? name l'.stripComment = some width := by
      rw [h.width?_eq hname, hwidth]
    rw [MayRequote, Header.stripComment_drop_of_width? hname hwidth,
      Header.stripComment_drop_of_width? hname hwidth']
    exact h.drop hname hwidth
  exact hwidth.elim (hdrop name hname) (hdrop [] fun _ hc => absurd hc List.not_mem_nil)

theorem find_eq_of_aligned {name : Text} (hname : ∀ c ∈ name, Placeholder.isKeyChar c = true)
    {ls ls' : List Text} (h : Aligned MayRequote (fun _ => False) ls ls') (s : Header.Search)
    (index : Nat) :
    Header.find name s.depth s.waiting index ls' = Header.find name s.depth s.waiting index ls := by
  induction h generalizing s index with
  | nil => rfl
  | cons hl _ ih =>
    obtain ⟨hheader, hnext⟩ := Header.header?_next_eq_of_alike (Requoted.alike hname hl) s index
    rw [Header.Search.find_cons, Header.Search.find_cons, hheader, hnext, ih]
  | insert hl => exact hl.elim

/-- How many lines stand before a block, in it and after it, where it begins, and what was met on which
line. -/
structure Outline where
  before : Nat
  firstLine : Nat
  body : Nat
  after : Nat
  warnings : List (Warning.Kind × Option Nat)
  deriving DecidableEq, Repr

def outline (e : Excerpt) : Outline where
  before := e.before.length
  firstLine := e.body.firstLine
  body := e.body.lines.length
  after := e.after.length
  warnings := e.warnings.map fun w => (w.kind, w.line?)

theorem outline_around {source source' : List Text}
    (h : Aligned MayRequote (fun _ => False) source source') {before before' : List Text}
    (hbefore : before'.length = before.length) (line : Nat) :
    (around before' line source').outline = (around before line source).outline := by
  obtain ⟨hbody, hafter, hkinds⟩ := around_aligned respects_mayRequote h before before' line line
  have hlength := hbody.length_eq fun _ => id
  have hwarnings : ∀ (before source : List Text), (around before line source).warnings.map
      (fun w => (w.kind, w.line?)) = ((around before line source).warnings.map Warning.kind).map
        fun kind => (kind, some (if kind = .trailingContent
          then line + (around before line source).body.lines.length else line + 1)) := by
    intro before source
    rw [List.map_map]
    exact List.map_congr_left fun w hw => Prod.ext rfl (line?_of_mem_warnings_around hw)
  rw [outline, outline, Outline.mk.injEq, hwarnings, hwarnings, hkinds, hlength]
  refine ⟨?_, ?_, rfl, hafter.length_eq fun _ => id, rfl⟩
  · rw [before_around, before_around, hbefore]
  · rw [body_around, body_around]

/-- Another text in a string literal leaves the outline of the block as it was, or leaves it missing.
The literal may stand anywhere, also in a comment. -/
theorem outline_ofLines_literal {name : Text}
    (hname : ∀ c ∈ name, Placeholder.isKeyChar c = true) {p : Text}
    (hp : (Scan.start.beforeComment p).2 = none) (hlast : p.getLast? ≠ some '\\') {q : Quote}
    {s s' : Text} (hs : q.Holds s) (hs' : q.Holds s') (r : Text) (before after : List Text) :
    (ofLines name (before ++ (p ++ q.literal s' ++ r) :: after)).map outline =
      (ofLines name (before ++ (p ++ q.literal s ++ r) :: after)).map outline := by
  have hrefl : ∀ l, MayRequote l l := fun l => .refl _
  have hlines : Aligned MayRequote (fun _ => False) (before ++ (p ++ q.literal s ++ r) :: after)
      (before ++ (p ++ q.literal s' ++ r) :: after) :=
    (Aligned.refl hrefl before).append
      (.cons (Requoted.stripComment_literal hp hlast hs hs' r) (.refl hrefl after))
  generalize before ++ (p ++ q.literal s ++ r) :: after = ls at hlines
  generalize before ++ (p ++ q.literal s' ++ r) :: after = ls' at hlines
  have hfind : Header.find name 0 none 0 ls' = Header.find name 0 none 0 ls :=
    find_eq_of_aligned hname hlines {} 0
  rw [ofLines, ofLines, hfind]
  cases hheader : Header.find name 0 none 0 ls with
  | none => rfl
  | some header =>
    obtain ⟨n, raw, rest, hline, hdrop, hwidth⟩ := Header.exists_of_find (s := {}) hheader
    rw [Nat.zero_add] at hline
    have haligned := hlines.drop (fun _ => id) n
    rw [hdrop] at haligned
    generalize hdrop' : ls'.drop n = source' at haligned
    cases haligned with
    | insert h => exact h.elim
    | cons hl hs =>
      rw [← hline] at hdrop hdrop'
      refine congrArg Except.ok ?_
      rw [atHeader_of_drop hdrop, atHeader_of_drop hdrop']
      refine outline_around (.cons (mayRequote_drop hname hl hwidth) hs) ?_ _
      rw [List.length_take, List.length_take, hlines.length_eq fun _ => id]

theorem outline_ofLines_literal_of_header :
    ∃ before p s s' r after,
      (∀ c ∈ "k8s".toList, Placeholder.isKeyChar c = true) ∧
      (Scan.start.beforeComment p).2 = none ∧ p.getLast? ≠ some '\\' ∧
      Quote.double.Holds s ∧ Quote.double.Holds s' ∧ s' = "\x7d // k8s \x7b".toList ∧
      (ofLines "k8s".toList (before ++ (p ++ Quote.double.literal s' ++ r) :: after)).map outline =
        (ofLines "k8s".toList (before ++ (p ++ Quote.double.literal s ++ r) :: after)).map outline ∧
      (ofLines "k8s".toList (before ++ (p ++ Quote.double.literal s ++ r) :: after)).map outline =
        .ok ⟨1, 2, 2, 2, [(.trailingContent, some 3)]⟩ := by
  have hname : ∀ c ∈ "k8s".toList, Placeholder.isKeyChar c = true := List.all_eq_true.1 (by decide)
  exact ⟨[[], "k8s \x7b".toList], "\x7d a =".toList, [], _, " // '".toList, [[]], hname, by decide,
    by decide, by decide, by decide, rfl,
    outline_ofLines_literal hname (by decide) (by decide) (by decide) (by decide) _ _ _, rfl⟩

end Excerpt
end HeadJob
