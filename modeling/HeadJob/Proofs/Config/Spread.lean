import Mathlib.Algebra.Ring.Int.Defs
import HeadJob.Proofs.Config.Reader

/-!
Values that stand on several lines.

Every value that is read was written on lines that follow one another, and one kind of delimiter decides
on which of them it ends.  Each line is scanned for itself.  The value as a whole is scanned from its
start, and whether it is balanced can be told from the lines if none but the last leaves a quote open.
-/

namespace HeadJob

open Delimiter (brackets braces)

/-! ## Balanced texts -/

/-- Outside quotes as many brackets, and as many braces, are closed as are opened. -/
def Text.IsBalanced (t : Text) : Prop :=
  ∀ d ∈ [brackets, braces],
    (Scan.start.outside t).count d.opening = (Scan.start.outside t).count d.closing

instance (t : Text) : Decidable t.IsBalanced :=
  inferInstanceAs (Decidable (∀ d ∈ [brackets, braces], _ = _))

theorem Delimiter.balance_eq_count {d : Delimiter} (hd : d.opening ≠ d.closing) (t : Text) :
    d.balance t = (t.count d.opening : Int) - t.count d.closing := by
  induction t with
  | nil => rfl
  | cons c t ih =>
    rw [balance_cons, change, ih, List.count_cons, List.count_cons]
    by_cases ho : c = d.opening
    · subst ho
      simp [hd]
      omega
    · by_cases hc : c = d.closing
      · subst hc
        simp [ho]
        omega
      · simp [ho, hc]

theorem Delimiter.balance_flatMap_outside (d : Delimiter) (ls : List Text) :
    d.balance (ls.flatMap Scan.start.outside) = (ls.map d.netChange).sum := by
  induction ls with
  | nil => rfl
  | cons l ls ih => rw [List.flatMap_cons, balance_append, ih, List.map_cons, List.sum_cons]; rfl

/-- The blanks that join lines are no delimiters. -/
theorem Delimiter.among_flatMap_blank {d : Delimiter} (hd : d ∈ [brackets, braces])
    (ls : List Text) :
    d.among (ls.flatMap fun l => ' ' :: Scan.start.outside l) =
      d.among (ls.flatMap Scan.start.outside) := by
  have hblank : d.among [' '] = [] := by
    revert d
    decide
  induction ls with
  | nil => rfl
  | cons l ls ih =>
    rw [List.flatMap_cons, List.flatMap_cons, among_append, among_append, ih,
      show ' ' :: Scan.start.outside l = [' '] ++ Scan.start.outside l from rfl, among_append,
      hblank, List.nil_append]

/-- A text is balanced exactly if it would be taken as a value from one line. -/
theorem Text.isBalanced_iff (t : Text) :
    t.IsBalanced ↔ ∀ d ∈ [brackets, braces], d.netChange t = 0 := by
  refine forall₂_congr fun d hd => ?_
  have hne : d.opening ≠ d.closing := by
    revert d
    decide
  rw [Delimiter.netChange_eq_balance, Delimiter.balance_eq_count hne]
  omega

/-! ## A value on its lines -/

/-- A value on the lines it stands on: what follows the equals sign on the first of them, and the
others. -/
structure Spread where
  first : Text
  more : List Text
  deriving DecidableEq

namespace Spread

def lines (s : Spread) : List Text := s.first :: s.more

def text (s : Spread) : Text := s.first ++ s.more.flatMap (' ' :: ·)

theorem text_append (first : Text) (more : List Text) (t : Text) :
    text ⟨first, more ++ [t]⟩ = text ⟨first, more⟩ ++ ' ' :: t := by
  simp [text]

theorem text_cons (first t : Text) (more : List Text) :
    text ⟨first, t :: more⟩ = first ++ ' ' :: text ⟨t, more⟩ := by
  simp [text]

theorem text_ne_nil {s : Spread} (h : s.first ≠ []) : s.text ≠ [] :=
  List.append_ne_nil_of_left_ne_nil h _

/-- Trimmed lines make a trimmed text. -/
theorem trim_text {first : Text} {more : List Text} (h : first ≠ []) (h' : first.trim = first)
    (hmore : ∀ l ∈ more, l ≠ [] ∧ l.trim = l) : (text ⟨first, more⟩).trim = text ⟨first, more⟩ := by
  induction more using List.reverseRecOn with
  | nil => simpa [text] using h'
  | append_singleton more t ih =>
    obtain ⟨hne, htrim⟩ := hmore t (by simp)
    have hfront := ih fun l hl => hmore l (List.mem_append_left [t] hl)
    rw [text_append, List.append_cons]
    exact Text.trim_append_append hfront (text_ne_nil h) htrim hne [' ']

/-- No line but the last leaves a quote open. -/
def ClosesQuotes (s : Spread) : Prop := ∀ l ∈ s.lines.dropLast, (Scan.start.run l).quote = none

instance (s : Spread) : Decidable s.ClosesQuotes :=
  inferInstanceAs (Decidable (∀ l ∈ s.lines.dropLast, _))

/-- What the lines open and what they close adds up to nothing, each line taken for itself. -/
def IsEven (s : Spread) : Prop := ∀ d ∈ [brackets, braces], (s.lines.map d.netChange).sum = 0

instance (s : Spread) : Decidable s.IsEven :=
  inferInstanceAs (Decidable (∀ d ∈ [brackets, braces], _ = _))

theorem outside_text {s : Spread} (h : s.ClosesQuotes) :
    Scan.start.outside s.text =
      Scan.start.outside s.first ++ s.more.flatMap fun l => ' ' :: Scan.start.outside l := by
  obtain ⟨first, more⟩ := s
  induction more generalizing first with
  | nil => simp [text]
  | cons t more ih =>
    -- the blank between two lines ends an escape, so the next line is scanned from the start
    have hquote : (Scan.start.run first).quote = none := h first (by simp [lines])
    have hrest : ClosesQuotes ⟨t, more⟩ := fun l hl => h l (by simpa [lines] using .inr hl)
    have hnext : (Scan.start.run first).next ' ' = Scan.start := by
      rw [Scan.next_of_isBlank (by decide), hquote]
      rfl
    have hout : (Scan.start.run first).isOutside ' ' = true := by
      rw [Scan.isOutside_of_plain (by decide), hquote]
      rfl
    rw [text_cons, Scan.outside_append, Scan.outside, if_pos hout, hnext, ih t hrest]
    rfl

theorem netChange_text {s : Spread} (h : s.ClosesQuotes) {d : Delimiter}
    (hd : d ∈ [brackets, braces]) : d.netChange s.text = (s.lines.map d.netChange).sum := by
  have hmore : d.balance (s.more.flatMap fun l => ' ' :: Scan.start.outside l) =
      (s.more.map d.netChange).sum := by
    rw [← Delimiter.balance_among, Delimiter.among_flatMap_blank hd, Delimiter.balance_among,
      Delimiter.balance_flatMap_outside]
  rw [Delimiter.netChange_eq_balance, outside_text h, Delimiter.balance_append, hmore]
  rfl

theorem isBalanced_text_iff {s : Spread} (h : s.ClosesQuotes) : s.text.IsBalanced ↔ s.IsEven := by
  rw [Text.isBalanced_iff]
  exact forall₂_congr fun d hd => by rw [netChange_text h hd]

/-- How a value is complete: at once, or with the line that closes the delimiter which the first line
left open.  The other delimiter has no say in it, nor has what comes after the closing mark. -/
inductive IsRead : Spread → Prop
  | atOnce (value : Text) (hvalue : value.IsBalanced) : IsRead ⟨value, []⟩
  | over (first : Text) (more : List Text) (d : Delimiter) (front rest : Text)
      (hd : d.KeepsOpen first)
      (hopen : d.depthAfter (d.netChange first).toNat
        (more.flatMap Scan.start.outside ++ Scan.start.outside front) = some 1)
      (hmark : (Scan.start.run front).isOutside d.closing = true) :
      IsRead ⟨first, more ++ [front ++ d.closing :: rest]⟩

/-- The line that ends the search for the closing mark completes the value. -/
theorem isRead_of_closed {first t : Text} {more : List Text} {d : Delimiter} {depth pos : Nat}
    (hd : d.KeepsOpen first)
    (hdepth : d.depthAfter (d.netChange first).toNat (more.flatMap Scan.start.outside) = some depth)
    (hclosed : d.closingOf depth t = .closed pos) : IsRead ⟨first, more ++ [t]⟩ := by
  obtain ⟨front, rest, m, rfl, -, hmark, hm, hle⟩ :=
    Delimiter.exists_of_closingFrom_eq_closed hclosed
  have hopen : d.depthAfter (d.netChange first).toNat
      (more.flatMap Scan.start.outside ++ Scan.start.outside front) = some m := by
    rw [Delimiter.depthAfter_append, hdepth]
    exact hm
  -- the value was open up to here, and one mark closes it
  have hone : m = 1 := by
    have hpos := Delimiter.depthAfter_pos (by have := hd.opens; omega) hopen
    omega
  subst hone
  exact .over first more d front rest hd hopen hmark

end Spread

/-- The lines as a reader of a body takes them: trimmed, and without those that are blank. -/
def Text.said (ls : List Text) : List Text := (ls.map trim).filter (· ≠ [])

/-- The value begins with an assignment to the key, and goes on over the lines that are read after it. -/
def Spread.StandsIn (s : Spread) (key : Text) (ls : List Text) : Prop :=
  ∃ t, t :: s.more <:+: ls ∧ t.opensSubBlock = false ∧ t.assignment? = some (key, s.first)

namespace BodyReader

variable {r r' : BodyReader} {line : Nat} {t : Text} {ls : List Text}

/-- Every value that was read, and the one that is being read, stands in the lines. -/
structure Accounts (ls : List Text) (r : BodyReader) : Prop where
  entries : ∀ e ∈ r.settings.entries, ∃ s : Spread, s.StandsIn e.1 ls ∧ s.text = e.2 ∧ s.IsRead
  value : ∀ v, r.reading = .value v → ∃ t first more, t :: more <:+ ls ∧
    t.opensSubBlock = false ∧ t.assignment? = some (v.key, first) ∧
    Spread.text ⟨first, more⟩ = v.text ∧ v.delimiter.KeepsOpen first ∧
    v.delimiter.depthAfter (v.delimiter.netChange first).toNat (more.flatMap Scan.start.outside) =
      some v.depth

namespace Accounts

theorem empty : Accounts [] {} where
  entries := fun _ h => absurd h List.not_mem_nil
  value := fun _ h => nomatch h

theorem entries_append (h : Accounts ls r) (t : Text) :
    ∀ e ∈ r.settings.entries, ∃ s : Spread, s.StandsIn e.1 (ls ++ [t]) ∧ s.text = e.2 ∧ s.IsRead := by
  intro e he
  obtain ⟨s, ⟨u, hu, hassign⟩, hs⟩ := h.entries e he
  exact ⟨s, ⟨u, hu.trans (List.prefix_append ls [t]).isInfix, hassign⟩, hs⟩

theorem assign (h : Accounts ls r) (line : Nat) {t key : Text} {s : Spread}
    (hstands : s.StandsIn key (ls ++ [t])) (hread : s.IsRead) :
    Accounts (ls ++ [t]) (r.assign line key s.text) where
  entries := by
    intro e he
    rw [settings_assign] at he
    rcases OrderedMap.mem_insert he with rfl | he
    · exact ⟨s, hstands, rfl, hread⟩
    · exact h.entries_append t e he
  value := by
    rw [reading_assign]
    exact fun _ hv => nomatch hv

theorem of_not_value (h : Accounts ls r) (t : Text) (hsettings : r'.settings = r.settings)
    (hreading : ∀ v, r'.reading ≠ .value v) : Accounts (ls ++ [t]) r' where
  entries := by
    rw [hsettings]
    exact h.entries_append t
  value := fun v hv => absurd hv (hreading v)

theorem step (h : Accounts ls r) (hr : Tidy r) (ht : t.IsCarried) (hstep : Step line t r r') :
    Accounts (ls ++ [t]) r' := by
  cases hstep with
  | blank hnil => exact absurd hnil ht.ne_nil
  | carry depth => exact h.of_not_value t rfl fun v => Reading.ofDepth_ne_value _ v
  | openBlock => exact h.of_not_value t rfl fun v => Reading.ofDepth_ne_value _ v
  | skip => exact h.of_not_value t rfl fun v => Reading.ofDepth_ne_value _ v
  | excess key d _ hidle => exact h.of_not_value t rfl fun v hv => by simp [warn, hidle] at hv
  | openValue key value d _ _ hassign hopens hd =>
    refine ⟨h.entries_append t, fun v hv => ?_⟩
    cases hv
    exact ⟨t, value, [], List.suffix_append ls [t], hopens, hassign, by simp [Spread.text], hd, rfl⟩
  | assign key value _ _ hopens hassign hbrackets hbraces =>
    have hread : Spread.IsRead ⟨value, []⟩ := by
      refine .atOnce value ((Text.isBalanced_iff value).2 ?_)
      simp [hbrackets, hbraces]
    have hstands : Spread.StandsIn ⟨value, []⟩ key (ls ++ [t]) :=
      ⟨t, (List.suffix_append ls [t]).isInfix, hopens, hassign⟩
    have hassigned := h.assign line hstands hread
    rwa [show Spread.text ⟨value, []⟩ = value by simp [Spread.text]] at hassigned
  | extend v depth _ hvalue hstill =>
    refine ⟨h.entries_append t, fun w hw => ?_⟩
    cases hw
    obtain ⟨u, first, more, hsuffix, hopens, hassign, htext, hd, hdepth⟩ := h.value v hvalue
    refine ⟨u, first, more ++ [t], ?_, hopens, hassign, ?_, hd, ?_⟩
    · exact List.suffix_append_self_iff.2 hsuffix
    · rw [Spread.text_append, htext]
    · rw [List.flatMap_append, Delimiter.depthAfter_append, hdepth, List.flatMap_singleton]
      exact Delimiter.depthAfter_of_closingFrom_eq_still hstill
  | close v _ hvalue pos hclosed =>
    obtain ⟨u, first, more, hsuffix, hopens, hassign, htext, hd, hdepth⟩ := h.value v hvalue
    have hread := Spread.isRead_of_closed hd hdepth hclosed
    have hstands : Spread.StandsIn ⟨first, more ++ [t]⟩ v.key (ls ++ [t]) :=
      ⟨u, (List.suffix_append_self_iff.2 hsuffix).isInfix, hopens, hassign⟩
    have hassigned := h.assign v.line hstands hread
    rwa [Spread.text_append, htext, ← ((hr.value v hvalue).2.extend ht).trim] at hassigned

theorem feedAll {ts : List Text} (hts : ∀ t ∈ ts, '\n' ∉ t ∧ t.stripComment = t)
    (h : Accounts ls r) (hr : Tidy r) (line : Nat) :
    Accounts (ls ++ Text.said ts) (r.feedAll line ts) := by
  induction ts generalizing r ls line with
  | nil => rwa [Text.said, List.map_nil, List.filter_nil, List.append_nil]
  | cons t ts ih =>
    have ht := hts t List.mem_cons_self
    have hrest := fun u hu => hts u (List.mem_cons_of_mem t hu)
    by_cases hblank : t.trim = []
    · have hsaid : Text.said (t :: ts) = Text.said ts := by simp [Text.said, hblank]
      rw [hsaid, BodyReader.feedAll, feed, if_pos hblank]
      exact ih hrest h hr (line + 1)
    · have hsaid : Text.said (t :: ts) = t.trim :: Text.said ts := by simp [Text.said, hblank]
      have hcarried : t.trim.IsCarried := ⟨hblank, Text.trim_trim t,
        fun hmem => ht.1 ((Text.trim_sublist t).subset hmem), Text.stripComment_trim ht.2⟩
      rw [hsaid, BodyReader.feedAll, List.append_cons]
      exact ih hrest (h.step hr hcarried (step_feed line t.trim r)) (hr.feed ht line) (line + 1)

end Accounts
end BodyReader
end HeadJob
