import HeadJob.Config.Document
import HeadJob.Proofs.Config.ClosingBrace
import HeadJob.Proofs.Config.Reader

/-!
The lines that warnings name.

A warning gives the number of a source line, and what it says stands in the part of the block on that
line.  The reader of a body does not see the source.  It counts lines from the one it is told, keeps the
number of the line on which a value began, and cites trimmed lines of the body, and each line of the body
is the part of the block on a source line of its own.
-/

namespace HeadJob

/-! ## What a warning says of its line -/

/-- The text assigns to the key: this stands before the first equals sign, apart from blanks. -/
def Text.AssignsTo (t key : Text) : Prop :=
  ∃ front back, t = front ++ '=' :: back ∧ '=' ∉ front ∧ key = front.trim

theorem Text.AssignsTo.of_trim {t key : Text} (h : t.trim.AssignsTo key) : t.AssignsTo key := by
  obtain ⟨front, back, htrim, hfront, hkey⟩ := h
  obtain ⟨a, b, ha, -, ht⟩ := exists_blanks_trim_blanks t
  have hequals : '=' ∉ a := fun hmem => absurd (List.all_eq_true.1 ha _ hmem) (by decide)
  refine ⟨a ++ front, back ++ b, ?_, ?_, ?_⟩
  · rw [ht, htrim]
    simp
  · rw [List.mem_append, not_or]
    exact ⟨hequals, hfront⟩
  · rw [hkey, trim_append_of_isAllBlank ha]

theorem Text.assignsTo_of_assignment? {t key value : Text}
    (h : t.trim.assignment? = some (key, value)) : t.AssignsTo key := by
  obtain ⟨front, back, htrim, hfront, hkey, -⟩ := exists_of_assignment? h
  exact .of_trim ⟨front, back, htrim, hfront, hkey.symm⟩

namespace Warning

/-- The warning is of its kind, and its message is taken from `part`: it quotes `part` without the blanks
around it, or it names the key that `part` assigns to.  That a block does not end, or that text comes
after its end, is not said of a part of it. -/
def Cites (part : Text) (w : Warning) : Prop :=
  match w with
  | notAssignment .. =>
    w.kind = .malformedAssignment ∧ w.message = "not an assignment: " ++ String.ofList part.trim
  | unbalanced .. =>
    w.kind = .malformedAssignment ∧ ∃ key closing, part.AssignsTo key ∧ w.message =
      "unbalanced '" ++ Char.toString closing ++ "' in value of '" ++ String.ofList key ++ "'"
  | nestedBlock .. =>
    w.kind = .nestedBlock ∧
      w.message = "passing nested block through unparsed: " ++ String.ofList part.trim
  | unterminatedValue .. =>
    w.kind = .unterminatedListValue ∧ ∃ key closing, part.AssignsTo key ∧ w.message =
      "value of '" ++ String.ofList key ++ "' never reaches its closing '" ++ Char.toString closing ++
        "'; key dropped"
  | duplicateKey .. =>
    w.kind = .duplicateKey ∧ ∃ key previous, part.AssignsTo key ∧ w.message =
      "'" ++ String.ofList key ++ "' assigned again, replacing " ++ String.ofList previous
  | unterminatedBlock _ => w.kind = .unterminatedBlock
  | trailingContent .. => w.kind = .trailingContent
  | invalidVolume _ => w.kind = .invalidVolumeArg

/-- The warning names a line, and cites what this line holds. -/
def PointsInto (Holds : Nat → Text → Prop) (w : Warning) : Prop :=
  ∃ n part, Holds n part ∧ w.line? = some n ∧ w.Cites part

end Warning

/-! ## Reading a body -/

namespace BodyReader

variable {Holds : Nat → Text → Prop} {r r' : BodyReader} {line : Nat} {t : Text}

/-- Every warning points to the line that it cites, and a value that is being read knows the line on
which it began. -/
structure Points (Holds : Nat → Text → Prop) (r : BodyReader) : Prop where
  warnings : ∀ w ∈ r.warnings, w.PointsInto Holds
  value : ∀ v, r.reading = .value v → ∃ part, Holds v.line part ∧ part.AssignsTo v.key

namespace Points

theorem empty : Points Holds {} where
  warnings := fun _ hw => absurd hw List.not_mem_nil
  value := fun _ hv => nomatch hv

theorem warn (h : Points Holds r) {w : Warning} (hw : w.PointsInto Holds) :
    ∀ w' ∈ (r.warn w).warnings, w'.PointsInto Holds := by
  intro w' hw'
  rcases List.mem_append.1 hw' with hw' | hw'
  · exact h.warnings w' hw'
  · rw [List.mem_singleton.1 hw']
    exact hw

theorem assign (h : Points Holds r) {key part : Text} (hpart : Holds line part)
    (hkey : part.AssignsTo key) (value : Text) : Points Holds (r.assign line key value) where
  warnings := by
    unfold BodyReader.assign
    dsimp only
    split
    · exact h.warnings
    · exact h.warn ⟨line, part, hpart, rfl, rfl, key, _, hkey, rfl⟩
  value := by
    rw [reading_assign]
    exact fun _ hv => nomatch hv

/-- A line is cited trimmed, as it is read. -/
theorem step (h : Points Holds r) (ht : Holds line t) (hstep : Step line t.trim r r') :
    Points Holds r' := by
  cases hstep with
  | blank => exact h
  | carry => exact ⟨h.warnings, fun v hv => absurd hv (Reading.ofDepth_ne_value _ v)⟩
  | openBlock =>
    exact ⟨h.warn ⟨line, t, ht, rfl, rfl, rfl⟩, fun v hv => absurd hv (Reading.ofDepth_ne_value _ v)⟩
  | skip =>
    exact ⟨h.warn ⟨line, t, ht, rfl, rfl, rfl⟩, fun v hv => absurd hv (Reading.ofDepth_ne_value _ v)⟩
  | excess key d _ hr value hassign =>
    have hkey := Text.assignsTo_of_assignment? hassign
    exact ⟨h.warn ⟨line, t, ht, rfl, rfl, key, d.closing, hkey, rfl⟩, h.value⟩
  | openValue key value d _ _ hassign =>
    refine ⟨h.warnings, fun v hv => ?_⟩
    cases hv
    exact ⟨t, ht, Text.assignsTo_of_assignment? hassign⟩
  | assign key value _ _ _ hassign => exact h.assign ht (Text.assignsTo_of_assignment? hassign) value
  | extend v depth _ hr =>
    refine ⟨h.warnings, fun w hw => ?_⟩
    cases hw
    exact h.value v hr
  | close v _ hr =>
    obtain ⟨part, hpart, hkey⟩ := h.value v hr
    exact h.assign hpart hkey _

theorem feedAll {ts : List Text} (h : Points Holds r)
    (hts : ∀ i t, ts[i]? = some t → Holds (line + i) t) : Points Holds (r.feedAll line ts) := by
  induction ts generalizing r line with
  | nil => exact h
  | cons t ts ih =>
    refine ih (h.step (hts 0 t rfl) (step_feed line t.trim r)) fun i u hu => ?_
    have hholds := hts (i + 1) u hu
    rwa [← Nat.add_assoc, Nat.add_right_comm] at hholds

/-- A value that never closes is warned of on the line where it began. -/
theorem finish (h : Points Holds r) : ∀ w ∈ r.finish.warnings, w.PointsInto Holds := by
  unfold BodyReader.finish
  split
  · exact h.warnings
  · exact h.warnings
  · next v hv =>
    obtain ⟨part, hpart, hkey⟩ := h.value v hv
    exact h.warn ⟨v.line, part, hpart, rfl, rfl, v.key, v.delimiter.closing, hkey, rfl⟩

end Points
end BodyReader

theorem Body.warnings_pointsInto {b : Body} {Holds : Nat → Text → Prop}
    (hb : ∀ i t, b.lines[i]? = some t → Holds (b.firstLine + i) t) :
    ∀ w ∈ b.contents.warnings, w.PointsInto Holds :=
  (BodyReader.Points.empty.feedAll hb).finish

/-! ## The part of a block on a line -/

/-- Line `i` of the text behind a header holds `part` of the block: the whole line but its comment before
the block is closed, and what stands before the closing brace on the line of that. -/
inductive Ending.Holds (source : List Text) : Nat → Text → Prop
  | within {i : Nat} {raw : Text} (hraw : source[i]? = some raw)
      (hopen : ∀ k front trailing, Balances source k front trailing → i < k) :
      Holds source i raw.stripComment
  | closing {k : Nat} {front trailing : Text} (h : IsClosing source k front trailing) :
      Holds source k front

/-- The text of a block begins with `source` behind the brace of the first header, which stands on line
`line`. -/
structure Header.Opens (name : Text) (lines : List Text) (line : Nat) (source : List Text) : Prop where
  first : ∃ start, IsFirst name lines start line
  text : ∃ head first later, lines.drop line = (head ++ '{' :: first) :: later ∧ '{' ∉ head ∧
    source = first :: later

/-- Line `n` of a configuration, counted from 1, holds `part` of the block. -/
def BlockPart (name : Text) (lines : List Text) (n : Nat) (part : Text) : Prop :=
  ∃ line source i, Header.Opens name lines line source ∧ n = line + 1 + i ∧
    Ending.Holds source i part

namespace Ending

variable {source : List Text} {i k : Nat} {part part' front front' trailing trailing' : Text}

theorem Holds.lt_length (h : Holds source i part) : i < source.length := by
  cases h with
  | within hraw => exact (List.getElem?_eq_some_iff.1 hraw).1
  | closing hclosing => exact (List.getElem?_eq_some_iff.1 hclosing.line).1

/-- Two closing braces are one. -/
theorem IsClosing.unique (h : IsClosing source k front trailing)
    (h' : IsClosing source k front' trailing') : front = front' := by
  have hlength : front.length = front'.length := by
    have hle := h.least k front' trailing' h'.toBalances
    have hle' := h'.least k front trailing h.toBalances
    omega
  have hline := h.line
  rw [h'.line, Option.some_inj] at hline
  exact (List.append_inj_left hline hlength.symm).symm

theorem Holds.unique (h : Holds source i part) (h' : Holds source i part') : part = part' := by
  cases h with
  | within hraw hopen =>
    cases h' with
    | within hraw' =>
      rw [hraw, Option.some_inj] at hraw'
      rw [hraw']
    | closing hclosing => exact absurd (hopen _ _ _ hclosing.toBalances) (Nat.lt_irrefl i)
  | closing hclosing =>
    cases h' with
    | within _ hopen => exact absurd (hopen _ _ _ hclosing.toBalances) (Nat.lt_irrefl i)
    | closing hclosing' => exact hclosing.unique hclosing'

end Ending

variable {name : Text} {lines : List Text}

theorem Header.IsFirst.line_unique {start start' line line' : Nat}
    (h : IsFirst name lines start line) (h' : IsFirst name lines start' line') : line = line' :=
  Nat.le_antisymm (h.least start' line' h'.stands) (h'.least start line h.stands)

theorem Header.Opens.unique {line line' : Nat} {source source' : List Text}
    (h : Opens name lines line source) (h' : Opens name lines line' source') :
    line = line' ∧ source = source' := by
  obtain ⟨⟨start, hfirst⟩, head, first, later, hdrop, hhead, rfl⟩ := h
  obtain ⟨⟨start', hfirst'⟩, head', first', later', hdrop', hhead', rfl⟩ := h'
  obtain rfl := hfirst.line_unique hfirst'
  rw [hdrop] at hdrop'
  injection hdrop' with hline hlater
  obtain rfl := Text.eq_of_append_cons hhead hhead' hline
  have hafter := List.append_cancel_left hline
  injection hafter with _ hafter
  exact ⟨rfl, by rw [hafter, hlater]⟩

namespace BlockPart

variable {n : Nat} {part part' : Text}

theorem unique (h : BlockPart name lines n part) (h' : BlockPart name lines n part') :
    part = part' := by
  obtain ⟨line, source, i, hopens, hn, hpart⟩ := h
  obtain ⟨line', source', i', hopens', hn', hpart'⟩ := h'
  obtain ⟨rfl, rfl⟩ := hopens.unique hopens'
  obtain rfl : i = i' := by omega
  exact hpart.unique hpart'

theorem mem_range (h : BlockPart name lines n part) : 1 ≤ n ∧ n ≤ lines.length := by
  obtain ⟨line, source, i, ⟨-, head, first, later, hdrop, -, rfl⟩, rfl, hpart⟩ := h
  have hlength := congrArg List.length hdrop
  have hi := hpart.lt_length
  simp only [List.length_drop, List.length_cons] at hlength hi
  omega

end BlockPart

namespace Excerpt

variable {e : Excerpt}

/-- Each line of a body is the part of the block on a source line. -/
theorem blockPart_of_ofLines (hname : ∀ c ∈ name, Placeholder.isKeyChar c = true) (hne : name ≠ [])
    (h : ofLines name lines = .ok e) {i : Nat} {t : Text} (ht : e.body.lines[i]? = some t) :
    BlockPart name lines (e.body.firstLine + i) t := by
  obtain ⟨start, line, head, first, later, hfirst, hdrop, hhead, -, hline, hends⟩ :=
    ofLines_parted hname hne h
  refine ⟨line, first :: later, i, ⟨⟨start, hfirst⟩, head, first, later, hdrop, hhead, rfl⟩,
    by rw [hline], ?_⟩
  rcases hends with ⟨k, front, trailing, hends⟩ | hends
  · have hlt := (List.getElem?_eq_some_iff.1 hends.closing.line).1
    have hlength : (((first :: later).take k).map Text.stripComment).length = k := by
      rw [List.length_map, List.length_take, Nat.min_eq_left (Nat.le_of_lt hlt)]
    rw [hends.body] at ht
    rcases Nat.lt_or_ge i k with hi | hi
    · rw [List.getElem?_append_left (by omega), List.getElem?_map, List.getElem?_take_of_lt hi,
        Option.map_eq_some_iff] at ht
      obtain ⟨raw, hraw, rfl⟩ := ht
      refine .within hraw fun k' front' trailing' hbalances => ?_
      have hle := hends.closing.least k' front' trailing' hbalances
      omega
    · rw [List.getElem?_append_right (by omega), List.getElem?_singleton] at ht
      split at ht
      · next hzero =>
        obtain rfl : i = k := by omega
        cases ht
        exact .closing hends.closing
      · cases ht
  · rw [hends.body, List.getElem?_map, Option.map_eq_some_iff] at ht
    obtain ⟨raw, hraw, rfl⟩ := ht
    exact .within hraw fun k front trailing hbalances =>
      absurd hbalances (hends.unclosed k front trailing)

/-- What is warned of around a body is warned of on the line of the header's brace or of the closing
one. -/
theorem warnings_pointsInto_body (hname : ∀ c ∈ name, Placeholder.isKeyChar c = true)
    (hne : name ≠ []) (h : ofLines name lines = .ok e) :
    ∀ w ∈ e.warnings, w.PointsInto fun n t => ∃ i, n = e.body.firstLine + i ∧
      e.body.lines[i]? = some t := by
  obtain ⟨start, line, head, first, later, -, -, -, -, hline, hends⟩ := ofLines_parted hname hne h
  intro w hw
  rcases hends with ⟨k, front, trailing, hends⟩ | hends
  · rw [hends.warnings] at hw
    split at hw
    · cases hw
    · have hlast : e.body.lines[k]? = some front := by
        have hlength := hends.length
        rw [hends.body, List.length_append, List.length_singleton] at hlength
        rw [hends.body, List.getElem?_append_right (by omega), List.getElem?_singleton,
          if_pos (by omega)]
      rw [List.mem_singleton.1 hw]
      exact ⟨_, front, ⟨k, by rw [hline, Nat.add_right_comm], hlast⟩, rfl, rfl⟩
  · rw [hends.warnings] at hw
    have hfirst : e.body.lines[0]? = some (Text.stripComment first) := by
      rw [hends.body]
      rfl
    rw [List.mem_singleton.1 hw]
    exact ⟨_, _, ⟨0, by rw [hline, Nat.add_zero], hfirst⟩, rfl, rfl⟩

end Excerpt

/-! ## The warnings of a document -/

namespace Document

variable {text : Text} {d : Document}

/-- Every warning names a line of the source that the block has a part on, and what the warning says is
taken from that part: the text it quotes is the part without the blanks around it, and the key it names
is the one that the part assigns to. -/
theorem warnings_cite_lines (hname : ∀ c ∈ name, Placeholder.isKeyChar c = true) (hne : name ≠ [])
    (h : ofText name text = .ok d) :
    ∀ w ∈ d.warnings, ∃ n, w.line? = some n ∧ 1 ≤ n ∧ n ≤ text.lines.length ∧
      (∃! part, BlockPart name text.lines n part) ∧
      ∀ part, BlockPart name text.lines n part → w.Cites part := by
  unfold ofText at h
  split at h
  · cases h
  · next e he =>
    cases h
    have hbody : ∀ i t, e.body.lines[i]? = some t →
        BlockPart name text.lines (e.body.firstLine + i) t := fun _ _ =>
      Excerpt.blockPart_of_ofLines hname hne he
    intro w hw
    have hpoints : w.PointsInto (BlockPart name text.lines) := by
      rcases List.mem_append.1 hw with hw | hw
      · obtain ⟨n, part, ⟨i, rfl, hi⟩, hline, hcites⟩ :=
          Excerpt.warnings_pointsInto_body hname hne he w hw
        exact ⟨_, part, hbody i part hi, hline, hcites⟩
      · exact Body.warnings_pointsInto hbody w hw
    obtain ⟨n, part, hpart, hline, hcites⟩ := hpoints
    obtain ⟨hlow, hhigh⟩ := hpart.mem_range
    refine ⟨n, hline, hlow, hhigh, ⟨part, hpart, fun _ hother => hother.unique hpart⟩, ?_⟩
    intro part' hpart'
    rw [hpart'.unique hpart]
    exact hcites

/-- The name waits two lines for its brace, one value goes on over three lines and another never closes,
and text stands on both sides of the closing brace. -/
theorem warnings_cite_lines_of_split_header :
    ∃ text d, (∀ c ∈ "k8s".toList, Placeholder.isKeyChar c = true) ∧ "k8s".toList ≠ [] ∧
      ofText "k8s".toList text = .ok d ∧
      d.warnings = [.trailingContent 10 "z".toList, .notAssignment 3 "= 0".toList,
        .duplicateKey 5 "n".toList "1".toList, .unbalanced 8 ']' "p".toList,
        .unterminatedValue 9 "q".toList ']'] ∧
      ∀ w ∈ d.warnings, ∃ n, w.line? = some n ∧ 1 ≤ n ∧ n ≤ text.lines.length ∧
        (∃! part, BlockPart "k8s".toList text.lines n part) ∧
        ∀ part, BlockPart "k8s".toList text.lines n part → w.Cites part := by
  have hname : ∀ c ∈ "k8s".toList, Placeholder.isKeyChar c = true := List.all_eq_true.1 (by decide)
  have hread : ∃ d, ofText "k8s".toList
      "k8s // a\n\n\x7b = 0 // b\n n = 1\n n = [ // c\n2\n ]\n p = ]\nq = [\n r \x7d z\n".toList = .ok d ∧
      d.warnings = [.trailingContent 10 "z".toList, .notAssignment 3 "= 0".toList,
        .duplicateKey 5 "n".toList "1".toList, .unbalanced 8 ']' "p".toList,
        .unterminatedValue 9 "q".toList ']'] := ⟨_, rfl, rfl⟩
  obtain ⟨d, hd, hwarnings⟩ := hread
  exact ⟨_, d, hname, by decide, hd, hwarnings, warnings_cite_lines hname (by decide) hd⟩

end Document
end HeadJob
