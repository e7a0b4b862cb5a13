import HeadJob.Config.Document
import HeadJob.Proofs.Config.Alike

/-!
Comments and blank lines do not change what is read.

A comment at the end of a line leaves a blank there at most, and a line that is blank without its comment
is passed over wherever it stands: in front of the block, between a name and its brace, in a value or in a
sub-block.  What changes is the number of the lines, and with it where warnings point to.
-/

namespace HeadJob

open Delimiter (braces)
open Text (isBlank isAllBlank)

/-! ## Blanks at the ends of lines, and lines of blanks -/

/-- Without their comments the lines differ in blanks that the second one has at its end. -/
def Text.GainsBlanks (l l' : Text) : Prop :=
  ∃ b, isAllBlank b = true ∧ l'.stripComment = l.stripComment ++ b

def Text.SaysNothing (l : Text) : Prop := isAllBlank l.stripComment = true

theorem Delimiter.closingFrom_isAllBlank {b : Text} (hb : isAllBlank b = true) (s : Scan)
    (depth index : Nat) : braces.closingFrom s depth index b = .still depth := by
  refine closingFrom_of_depthAfter_eq_some ?_
  rw [← depthAfter_among, among_outside_of_isAllBlank (by decide) (by decide) hb]
  rfl

/-! ## The search for the header -/

namespace Header

variable {name : Text}

theorem map_width_ending? (name : Text) (waiting : Option Nat) (index : Nat) (line : Text) :
    (ending? name waiting index line).map Header.width =
      if waiting.isSome then (width? [] line).or (width? name line) else width? name line := by
  cases waiting with
  | none => simp [ending?, Function.comp_def]
  | some start =>
    cases hwidth : width? [] line with
    | none => simp [ending?, hwidth, Function.comp_def]
    | some width => simp [ending?, hwidth]

theorem isSome_waitingAfter (hname : name ≠ []) (waiting : Option Nat) (index : Nat)
    (line : Text) :
    (waitingAfter name waiting index line).isSome =
      (waiting.isSome && isAllBlank line || decide (Text.trim line = name)) := by
  rw [waitingAfter, if_congr (trim_eq_and_ne_nil_iff hname line) rfl rfl]
  split
  · next h => simp [h.1, h.2]
  · next h =>
    rw [show (waiting.isSome && isAllBlank line) = false by simpa using h, Bool.false_or]
    split <;> simp_all

/-- Two searches that go on in the same way.  Without a name it makes no difference whether one waits. -/
structure Search.Matches (name : Text) (s s' : Search) : Prop where
  depth : s'.depth = s.depth
  waiting : name ≠ [] → s.depth = 0 → s'.waiting.isSome = s.waiting.isSome

namespace Search.Matches

variable {s s' : Search} {l l' : Text}

theorem refl (name : Text) (s : Search) : Matches name s s := ⟨rfl, fun _ _ => rfl⟩

theorem map_width_header? (h : Matches name s s') (hl : l.GainsBlanks l') (i j : Nat) :
    (s'.header? name j l'.stripComment).map Header.width =
      (s.header? name i l.stripComment).map Header.width := by
  obtain ⟨b, hb, hl⟩ := hl
  rw [hl, header?_append_blanks hb, header?, header?, h.depth]
  split
  · next hdepth =>
    rw [map_width_ending?, map_width_ending?]
    by_cases hempty : name = []
    · subst hempty
      simp
    · rw [h.waiting hempty hdepth]
  · rfl

/-- A line that says nothing ends no header. -/
theorem header?_eq_none (s : Search) (hl : l.SaysNothing) (i : Nat) :
    s.header? name i l.stripComment = none := by
  have hwidth : ∀ name : Text, width? name l.stripComment = none := by
    intro name
    rw [← List.nil_append l.stripComment, width?_append_blanks hl]
    cases name <;> rfl
  simp [header?, ending?, hwidth]

theorem isSome_waiting_next (hname : name ≠ []) (s : Search) (index : Nat) (line : Text) :
    (s.next name index line).waiting.isSome =
      (decide (s.depth = 0) &&
        (s.waiting.isSome && isAllBlank line || decide (Text.trim line = name))) := by
  rw [← isSome_waitingAfter hname s.waiting index, waiting_next]
  by_cases hd : s.depth = 0
  · simp [hd]
  · simp [hd]

theorem next (hname : ∀ c ∈ name, Placeholder.isKeyChar c = true) (h : Matches name s s')
    (hl : l.GainsBlanks l') (i j : Nat) :
    Matches name (s.next name i l.stripComment) (s'.next name j l'.stripComment) where
  depth := by
    obtain ⟨b, hb, hl⟩ := hl
    rw [depth_next hname, depth_next hname, clampedDepth, clampedDepth, h.depth, hl,
      Delimiter.netChange_append_blanks (by decide) (by decide) hb]
  waiting := by
    intro hempty _
    obtain ⟨b, hb, hl⟩ := hl
    rw [hl, next_append_blanks hempty hb, isSome_waiting_next hempty, isSome_waiting_next hempty,
      h.depth]
    by_cases hd : s.depth = 0
    · rw [h.waiting hempty hd]
    · simp [hd]

theorem next_right (hname : ∀ c ∈ name, Placeholder.isKeyChar c = true) (h : Matches name s s')
    (hl : l.SaysNothing) (j : Nat) : Matches name s (s'.next name j l.stripComment) where
  depth := by
    have hzero : braces.netChange l.stripComment = 0 := by
      rw [Delimiter.netChange_eq_balance, ← Delimiter.balance_among,
        Delimiter.among_outside_of_isAllBlank (by decide) (by decide) hl]
      rfl
    rw [depth_next hname, clampedDepth, hzero, h.depth]
    rfl
  waiting := by
    intro hempty hdepth
    rw [isSome_waiting_next hempty, h.depth, hdepth, h.waiting hempty hdepth,
      Text.trim_of_isAllBlank hl, show isAllBlank l.stripComment = true from hl]
    simp [Ne.symm hempty]

end Search.Matches

/-- Where two headers stand that are found side by side: on lines that belong together, and the lines
after them do. -/
def SameSource (a b : List Text) (i j : Nat) (h h' : Header) : Prop :=
  ∃ m n raw rest raw' rest', h.line = i + m ∧ h'.line = j + n ∧ a.drop m = raw :: rest ∧
    b.drop n = raw' :: rest' ∧ Text.GainsBlanks (raw.drop h.width) (raw'.drop h'.width) ∧
    Aligned Text.GainsBlanks Text.SaysNothing rest rest'

theorem SameSource.cons {a b : List Text} {i j : Nat} {h h' : Header} (l l' : Text)
    (hs : SameSource a b (i + 1) (j + 1) h h') : SameSource (l :: a) (l' :: b) i j h h' := by
  obtain ⟨m, n, raw, rest, raw', rest', hm, hn, hrest⟩ := hs
  exact ⟨m + 1, n + 1, raw, rest, raw', rest', by omega, by omega, hrest⟩

theorem SameSource.insert {a b : List Text} {i j : Nat} {h h' : Header} (l' : Text)
    (hs : SameSource a b i (j + 1) h h') : SameSource a (l' :: b) i j h h' := by
  obtain ⟨m, n, raw, rest, raw', rest', hm, hn, hrest⟩ := hs
  exact ⟨m, n + 1, raw, rest, raw', rest', hm, by omega, hrest⟩

theorem rel_imp {r r' : Header → Header → Prop} (h : ∀ x y, r x y → r' x y) {o o' : Option Header}
    (ho : Option.Rel r o o') : Option.Rel r' o o' := by
  cases ho with
  | none => exact .none
  | some hr => exact .some (h _ _ hr)

theorem gainsBlanks_drop (hname : ∀ c ∈ name, Placeholder.isKeyChar c = true) {l l' : Text}
    (h : l.GainsBlanks l') {width : Nat} (hwidth : width? name l.stripComment = some width) :
    Text.GainsBlanks (l.drop width) (l'.drop width) := by
  obtain ⟨b, hb, hl⟩ := h
  have hwidth' : width? name l'.stripComment = some width := by
    rw [hl, width?_append_blanks hb, hwidth]
  obtain ⟨front, -, hpre, rfl⟩ := (width?_eq_some_iff hname).1 hwidth
  refine ⟨b, hb, ?_⟩
  rw [stripComment_drop_of_width? hname hwidth, stripComment_drop_of_width? hname hwidth', hl,
    List.drop_append_of_le_length hpre.length_le]

theorem find_aligned (hname : ∀ c ∈ name, Placeholder.isKeyChar c = true) {a b : List Text}
    (hab : Aligned Text.GainsBlanks Text.SaysNothing a b) {s s' : Search}
    (h : s.Matches name s') (i j : Nat) :
    Option.Rel (SameSource a b i j) (find name s.depth s.waiting i a)
      (find name s'.depth s'.waiting j b) := by
  induction hab generalizing s s' i j with
  | nil => exact .none
  | @cons l l' ls ls' hl hs ih =>
    have hheader := h.map_width_header? hl i j
    rw [Search.find_cons, Search.find_cons]
    cases hfound : s.header? name i l.stripComment with
    | none =>
      rw [hfound, Option.map_none, Option.map_eq_none_iff] at hheader
      rw [hheader, Option.none_or, Option.none_or]
      exact rel_imp (fun _ _ => SameSource.cons l l') (ih (h.next hname hl i j) (i + 1) (j + 1))
    | some header =>
      rw [hfound, Option.map_some] at hheader
      obtain ⟨header', hfound', hwidth⟩ := Option.map_eq_some_iff.1 hheader
      obtain ⟨hline, hfront⟩ := width?_of_header? hfound
      rw [hfound', Option.some_or, Option.some_or]
      refine .some ⟨0, 0, l, ls, l', ls', hline, (width?_of_header? hfound').1, rfl, rfl, ?_, hs⟩
      rw [hwidth]
      exact hfront.elim (gainsBlanks_drop hname hl)
        (gainsBlanks_drop (fun _ hc => absurd hc List.not_mem_nil) hl)
  | @insert l ls ls' hl _ ih =>
    rw [Search.find_cons name s' j l, Search.Matches.header?_eq_none s' hl, Option.none_or]
    exact rel_imp (fun _ _ => SameSource.insert l) (ih (h.next_right hname hl j) i (j + 1))

end Header

/-! ## The body -/

theorem Ending.respects_gainsBlanks :
    Respects Text.GainsBlanks (fun l l' => Text.trim l' = Text.trim l) Text.SaysNothing
      fun l => isAllBlank l = true where
  insert := fun l hl => ⟨fun depth => Delimiter.closingFrom_isAllBlank hl _ depth 0, hl⟩
  line := by
    rintro l l' ⟨b, hb, hl⟩ depth
    rw [hl, Delimiter.closingOf, Delimiter.closingOf, Delimiter.closingFrom_append]
    cases hclose : braces.closingFrom Scan.start depth 0 l.stripComment with
    | still m =>
      refine .inl ⟨m, rfl, Delimiter.closingFrom_isAllBlank hb _ m _, ?_⟩
      exact Text.trim_append_blanks (a := []) rfl hb _
    | closed n =>
      have hlt := (Delimiter.lt_length_of_closingFrom hclose).2
      refine .inr ⟨n, n, rfl, rfl, ?_, ?_⟩
      · rw [List.take_append_of_le_length (by omega)]
      · rw [List.drop_append_of_le_length (by omega), Text.isAllBlank_append, hb, Bool.and_true]

/-- What is being read is the same, but for the line that a value began on. -/
inductive Reading.SameButLine : Reading → Reading → Prop
  | idle : SameButLine .idle .idle
  | nested (depth : Nat) : SameButLine (.nested depth) (.nested depth)
  | value (v : OpenValue) (line : Nat) : SameButLine (.value v) (.value { v with line })

theorem Reading.SameButLine.refl (r : Reading) : SameButLine r r := by
  cases r with
  | idle => exact .idle
  | nested depth => exact .nested depth
  | value v => exact .value v v.line

namespace BodyReader

/-- Two readers have read the same, but for the lines that it stood on. -/
structure SameGist (r r' : BodyReader) : Prop where
  settings : r'.settings = r.settings
  nested : r'.nested = r.nested
  kinds : r'.warnings.map Warning.kind = r.warnings.map Warning.kind
  reading : Reading.SameButLine r.reading r'.reading

namespace SameGist

variable {r r' : BodyReader}

theorem warn (h : SameGist r r') {w w' : Warning} (hw : w'.kind = w.kind) :
    SameGist (r.warn w) (r'.warn w') where
  settings := h.settings
  nested := h.nested
  kinds := by simp [BodyReader.warn, h.kinds, hw]
  reading := h.reading

theorem assign (h : SameGist r r') (i j : Nat) (key value : Text) :
    SameGist (r.assign i key value) (r'.assign j key value) := by
  have hset : SameGist { r with settings := r.settings.insert key value, reading := .idle }
      { r' with settings := r'.settings.insert key value, reading := .idle } :=
    ⟨by rw [h.settings], h.nested, h.kinds, .idle⟩
  unfold BodyReader.assign
  rw [h.settings]
  rw [h.settings] at hset
  cases r.settings.get? key with
  | none => exact hset
  | some previous => exact hset.warn rfl

theorem startValue (h : SameGist r r') (i j : Nat) (key value : Text) (ds : List Delimiter) :
    SameGist (r.startValue i key value ds) (r'.startValue j key value ds) := by
  induction ds with
  | nil => exact h.assign i j key value
  | cons d ds ih =>
    rw [BodyReader.startValue, BodyReader.startValue]
    split
    · exact ⟨h.settings, h.nested, h.kinds, .value ⟨key, i, value, d, _⟩ j⟩
    · split
      · exact h.warn rfl
      · exact ih

theorem start (h : SameGist r r') (i j : Nat) (t : Text) :
    SameGist (r.start i t) (r'.start j t) := by
  have hwarn : ∀ {w w' : Warning}, w'.kind = w.kind →
      (r'.warn w').warnings.map Warning.kind = (r.warn w).warnings.map Warning.kind :=
    fun hw => (h.warn hw).kinds
  unfold BodyReader.start
  dsimp only
  split
  · exact ⟨h.settings, by rw [h.nested], hwarn rfl, .refl _⟩
  · split
    · exact ⟨h.settings, h.nested, hwarn rfl, .refl _⟩
    · exact h.startValue i j _ _ _

theorem continueValue (h : SameGist r r') (v : OpenValue) (line : Nat) (t : Text) :
    SameGist (r.continueValue v t) (r'.continueValue { v with line } t) := by
  unfold BodyReader.continueValue
  dsimp only
  split
  · exact h.assign v.line line v.key _
  · next depth _ => exact ⟨h.settings, h.nested, h.kinds, .value { v with text := _, depth } line⟩

theorem feed (h : SameGist r r') (i j : Nat) (t : Text) : SameGist (r.feed i t) (r'.feed j t) := by
  unfold BodyReader.feed
  split
  · exact h
  · have hreading := h.reading
    generalize r.reading = reading at hreading
    generalize r'.reading = reading' at hreading
    cases hreading with
    | idle => exact h.start i j t
    | nested depth => exact ⟨h.settings, by rw [h.nested], h.kinds, .refl _⟩
    | value v line => exact h.continueValue v line t

/-- Blank lines in between make no difference, wherever they stand. -/
theorem feedAll {a b : List Text}
    (hab : Aligned (fun l l' => Text.trim l' = Text.trim l) (fun l => isAllBlank l = true) a b)
    (h : SameGist r r') (i j : Nat) : SameGist (r.feedAll i a) (r'.feedAll j b) := by
  induction hab generalizing r r' i j with
  | nil => exact h
  | cons hl _ ih =>
    rw [BodyReader.feedAll, BodyReader.feedAll, hl]
    exact ih (h.feed i j _) (i + 1) (j + 1)
  | @insert l a b hl _ ih =>
    -- a reader passes over a line of blanks
    have hblank : r'.feedAll j (l :: b) = r'.feedAll (j + 1) b := by
      rw [BodyReader.feedAll, Text.trim_of_isAllBlank hl]
      rfl
    rw [hblank]
    exact ih h i (j + 1)

theorem finish (h : SameGist r r') :
    r'.finish.settings = r.finish.settings ∧ r'.finish.nested = r.finish.nested ∧
      r'.finish.warnings.map Warning.kind = r.finish.warnings.map Warning.kind := by
  have hreading := h.reading
  unfold BodyReader.finish
  generalize r.reading = reading at hreading
  generalize r'.reading = reading' at hreading
  cases hreading with
  | idle => exact ⟨h.settings, h.nested, h.kinds⟩
  | nested depth => exact ⟨h.settings, by rw [h.nested], h.kinds⟩
  | value v line => exact ⟨h.settings, h.nested, by simp [h.kinds, Warning.kind]⟩

end SameGist
end BodyReader

/-! ## Comments and blank lines in a text -/

/-- Lines to which a comment is put after a blank, where no quote is open at their end, with lines in
between that are blank or a comment. -/
inductive Text.Annotated : List Text → List Text → Prop
  | nil : Annotated [] []
  | keep (l : Text) {ls ls' : List Text} (hs : Annotated ls ls') :
      Annotated (l :: ls) (l :: ls')
  | comment (l words : Text) {ls ls' : List Text} (hl : (Scan.start.beforeComment l).2 = none)
      (hs : Annotated ls ls') :
      Annotated (l :: ls) ((l ++ " //".toList ++ words) :: ls')
  | blankLine (b : Text) {ls ls' : List Text} (hb : isAllBlank b = true) (hs : Annotated ls ls') :
      Annotated ls (b :: ls')
  | commentLine (b words : Text) {ls ls' : List Text} (hb : isAllBlank b = true)
      (hs : Annotated ls ls') :
      Annotated ls ((b ++ "//".toList ++ words) :: ls')

namespace Text

theorem gainsBlanks_comment {l : Text} (hl : (Scan.start.beforeComment l).2 = none) (words : Text) :
    GainsBlanks l (l ++ " //".toList ++ words) := by
  have hstrip : (l ++ " //".toList ++ words).stripComment = if Scan.start.IsBare l
      then l ++ ((Scan.start.run l).beforeComment (" //".toList ++ words)).1
      else l.stripComment := by
    rw [List.append_assoc]
    exact Scan.beforeComment_append (.inr (by simp))
  by_cases hbare : Scan.start.IsBare l
  · have hquote : (Scan.start.run l).quote = none := by
      rw [← Scan.quote_beforeComment_of_isBare hbare, hl]
    have hcomment : ((Scan.start.run l).beforeComment (" //".toList ++ words)).1 = [' '] := by
      simp [Scan.beforeComment, Scan.next_of_isBlank, isBlank, hquote]
    refine ⟨[' '], by decide, ?_⟩
    rw [hstrip, if_pos hbare, hcomment, stripComment, hbare]
  · exact ⟨[], rfl, by rw [hstrip, if_neg hbare, List.append_nil]⟩

theorem saysNothing_of_isAllBlank {b : Text} (hb : isAllBlank b = true) : b.SaysNothing :=
  List.all_eq_true.2 fun c hc => List.all_eq_true.1 hb c ((stripComment_sublist b).subset hc)

theorem saysNothing_comment {b : Text} (hb : isAllBlank b = true) (words : Text) :
    SaysNothing (b ++ "//".toList ++ words) := by
  rw [SaysNothing, List.append_assoc, stripComment_append_of_isAllBlank hb]
  show isAllBlank (b ++ []) = true
  rwa [List.append_nil]

theorem Annotated.aligned {ls ls' : List Text} (h : Annotated ls ls') :
    Aligned GainsBlanks SaysNothing ls ls' := by
  induction h with
  | nil => exact .nil
  | keep l _ ih => exact .cons ⟨[], rfl, (List.append_nil _).symm⟩ ih
  | comment l words hl _ ih => exact .cons (gainsBlanks_comment hl words) ih
  | blankLine b hb _ ih => exact .insert (saysNothing_of_isAllBlank hb) ih
  | commentLine b words hb _ ih => exact .insert (saysNothing_comment hb words) ih

end Text

namespace Document

/-- What a document says, wherever in the text it says it. -/
def gist (d : Document) : Settings × List Text × List Warning.Kind :=
  (d.settings, d.nested, d.warnings.map Warning.kind)

/-- A text with comments and blank lines put in is read as it was without them, or cannot be read for
the same reason. -/
theorem gist_ofText_of_annotated {name : Text}
    (hname : ∀ c ∈ name, Placeholder.isKeyChar c = true) {text text' : Text}
    (h : Text.Annotated text.lines text'.lines) :
    (ofText name text').map gist = (ofText name text).map gist := by
  have hfind : Option.Rel (Header.SameSource text.lines text'.lines 0 0)
      (Header.find name 0 none 0 text.lines) (Header.find name 0 none 0 text'.lines) :=
    Header.find_aligned hname h.aligned (Header.Search.Matches.refl name {}) 0 0
  rw [ofText, ofText, Excerpt.ofLines, Excerpt.ofLines]
  revert hfind
  generalize Header.find name 0 none 0 text.lines = found
  generalize Header.find name 0 none 0 text'.lines = found'
  intro hfind
  cases hfind with
  | none => rfl
  | @some header header' hsource =>
    obtain ⟨m, n, raw, rest, raw', rest', hm, hn, hdrop, hdrop', hl, hs⟩ := hsource
    rw [Nat.zero_add] at hm hn
    rw [← hm] at hdrop
    rw [← hn] at hdrop'
    dsimp only
    rw [Excerpt.atHeader_of_drop hdrop, Excerpt.atHeader_of_drop hdrop']
    obtain ⟨hbody, -, hkinds⟩ := Excerpt.around_aligned Ending.respects_gainsBlanks (.cons hl hs)
      (text.lines.take header.start) (text'.lines.take header'.start) header.line header'.line
    have hread : BodyReader.SameGist {} {} := ⟨rfl, rfl, rfl, .idle⟩
    obtain ⟨hsettings, hnested, hwarnings⟩ := (hread.feedAll hbody _ _).finish
    refine congrArg Except.ok (Prod.ext hsettings (Prod.ext hnested ?_))
    simp only [gist, List.map_append, hkinds]
    exact congrArg _ hwarnings

theorem gist_ofText_of_annotated_list :
    ∃ text text' : Text, text = "k8s\n\x7b\na = [\n1 ] /\n\x7d\n".toList ∧
      text' = "k8s // '\n\n\x7b // \x7d\na = [ // ]\n// \x7d\n1 ] / // \"\n\x7d\n".toList ∧
      (∀ c ∈ "k8s".toList, Placeholder.isKeyChar c = true) ∧
      Text.Annotated (Text.lines text) (Text.lines text') ∧
      (ofText "k8s".toList text').map gist = (ofText "k8s".toList text).map gist ∧
      (ofText "k8s".toList text).map gist = .ok (.ofList [(['a'], "[ 1 ] /".toList)], [], []) := by
  have hname : ∀ c ∈ "k8s".toList, Placeholder.isKeyChar c = true := List.all_eq_true.1 (by decide)
  have hlines : Text.lines "k8s\n\x7b\na = [\n1 ] /\n\x7d\n".toList =
      ["k8s".toList, ['\x7b'], "a = [".toList, "1 ] /".toList, ['\x7d']] := rfl
  have hlines' : Text.lines
        "k8s // '\n\n\x7b // \x7d\na = [ // ]\n// \x7d\n1 ] / // \"\n\x7d\n".toList =
      ["k8s // '".toList, [], "\x7b // \x7d".toList, "a = [ // ]".toList, "// \x7d".toList,
        "1 ] / // \"".toList, ['\x7d']] := rfl
  refine ⟨_, _, rfl, rfl, hname, ?annotated, gist_ofText_of_annotated hname ?annotated, rfl⟩
  rw [hlines, hlines']
  exact .comment _ " '".toList rfl <| .blankLine _ rfl <| .comment _ " \x7d".toList rfl <|
    .comment _ " ]".toList rfl <| .commentLine [] " \x7d".toList rfl <|
    .comment _ " \"".toList rfl <| .keep _ .nil

end Document
end HeadJob
