import HeadJob.Proofs.Config.Alike
import HeadJob.Proofs.Text.Byte

/-!
A block cut out by places that are counted in bytes.

The search for a header and the reading of a body stand here once more, with the text of a waiting
name where the search keeps its line only, and with each line cut at a byte.  That byte was told by
another text: by the waiting name and the line after it, or by a line without its comment.  So a
distance may turn out negative and a cut may miss, and then there is no block.

This never happens, whatever the name and the lines are.  A waiting text is the name and blanks around
it, so a header that goes on in a later line begins there with its brace, and a comment is cut off the
end of a line, so what is seen without it stands at the same byte of the line.
-/

namespace HeadJob

open Delimiter (braces)
open Text (isAllBlank utf8Size)

/-- The byte that a comment begins at. -/
def Scan.commentAt? (s : Scan) (place : Nat) : Text → Option Nat
  | [] => none
  | c :: t =>
    if s.quote = none ∧ c = '/' ∧ t.head? = some '/' then some place
    else commentAt? (s.next c) (place + c.utf8Size) t

namespace Bytewise

/-- A line up to the byte that its comment begins at. -/
def stripComment (raw : Text) : Except Misplaced Text :=
  match Scan.start.commentAt? 0 raw with
  | none => .ok raw
  | some place => Prod.fst <$> Text.cutAt place raw

/-! ## The header -/

/-- The byte of the brace in a text that starts with the header `name {`. -/
def brace? (name text : Text) : Except Misplaced (Option Nat) :=
  match Text.dropPrefix? name (Text.trimStart text) with
  | none => .ok none
  | some rest =>
    if (Text.trimStart rest).head? = some '{' then
      some <$> Text.bytesFrom (utf8Size (Text.trimStart rest)) (utf8Size text)
    else .ok none

/-- Where a search stands: how many braces deep, and the text since a name that still lacks its brace,
with the line that it began on. -/
structure Search where
  depth : Nat := 0
  pending : Text := []
  start : Nat := 0
  deriving DecidableEq, Repr

namespace Search

variable (name : Text)

/-- The header that a line completes, with its width in bytes. -/
def header? (s : Search) (index : Nat) (line : Text) : Except Misplaced (Option Header) := do
  if s.depth = 0 then
    match ← brace? name (s.pending ++ line) with
    | some place =>
      if s.pending = [] then return some ⟨index, index, place + 1⟩
      else return some ⟨s.start, index, (← Text.bytesFrom (utf8Size s.pending) place) + 1⟩
    | none =>
      if s.pending = [] then return none
      else return (← brace? name line).map fun place => ⟨index, index, place + 1⟩
  else return none

/-- The search after a line that completes no header. -/
def next (s : Search) (index : Nat) (line : Text) : Search :=
  let deeper := ((s.depth : Int) + braces.netChange line).toNat
  if s.depth = 0 then
    if Text.trim (s.pending ++ line) = name then
      ⟨0, s.pending ++ line, if s.pending = [] then index else s.start⟩
    else if Text.trim line = name then ⟨0, line, index⟩
    else ⟨deeper, [], s.start⟩
  else { s with depth := deeper }

end Search

def find (name : Text) (s : Search) (index : Nat) :
    List Text → Except Misplaced (Option Header)
  | [] => return none
  | raw :: rest => do
    let line ← stripComment raw
    match ← s.header? name index line with
    | some header => return some header
    | none => find name (s.next name index line) (index + 1) rest

/-! ## The body -/

/-- Looks for the brace that closes the outermost of `depth` open ones among the characters outside
quotes. -/
def closing (depth : Nat) : List (Nat × Char) → Delimiter.Closing
  | [] => .still depth
  | (place, c) :: rest =>
    if c = braces.opening then closing (depth + 1) rest
    else if c = braces.closing then
      if depth ≤ 1 then .closed place else closing (depth - 1) rest
    else closing depth rest

/-- Reads the body of a block from byte `start` of line `index` on. -/
def read (lines : List Text) (depth start index : Nat) :
    List Text → Except Misplaced (List Text × Ending)
  | [] => return ([], .unterminated)
  | raw :: rest => do
    let line ← stripComment (← Text.cutAt start raw).2
    match closing depth line.outsideQuotes with
    | .closed place =>
      let kept := (← Text.cutAt place line).1
      let trailing := (← Text.cutAt (start + place + 1) raw).2
      let after := (← Text.cutAtLine (index + 1) lines).2
      return ([kept], .closed index trailing after)
    | .still depth =>
      let more ← read lines depth 0 (index + 1) rest
      return (line :: more.1, more.2)

/-- The block whose header is found, with the width of the header in bytes. -/
def atHeader (lines : List Text) (header : Header) : Except Misplaced Excerpt := do
  let before := (← Text.cutAtLine header.start lines).1
  let body ← read lines 1 header.width header.line (lines.drop header.line)
  match body.2 with
  | .unterminated =>
    return ⟨⟨body.1, header.line + 1⟩, before, [], [.unterminatedBlock (header.line + 1)]⟩
  | .closed line trailing rest =>
    if isAllBlank (← stripComment trailing) then
      return ⟨⟨body.1, header.line + 1⟩, before, rest, []⟩
    else
      return ⟨⟨body.1, header.line + 1⟩, before, trailing :: rest,
        [.trailingContent (line + 1) (Text.trim trailing)]⟩

/-- Cuts a configuration around its first block of this name at the top level, or fails at a place that
cannot be used. -/
def excerpt (name : Text) (lines : List Text) : Except Misplaced (Except ConfigError Excerpt) := do
  match ← find name {} 0 lines with
  | none => return .error (.blockNotFound name)
  | some header => return .ok (← atHeader lines header)

end Bytewise

/-! ## Comments -/

theorem Scan.beforeComment_of_commentAt?_eq_none {s : Scan} {place : Nat} {t : Text}
    (h : s.commentAt? place t = none) : (s.beforeComment t).1 = t := by
  induction t generalizing s place with
  | nil => rfl
  | cons c t ih =>
    rw [commentAt?] at h
    rw [beforeComment]
    split at h
    · cases h
    · next hc =>
      rw [if_neg hc]
      exact congrArg (c :: ·) (ih h)

theorem Scan.eq_of_commentAt?_eq_some {s : Scan} {place i : Nat} {t : Text}
    (h : s.commentAt? place t = some i) : i = place + utf8Size (s.beforeComment t).1 := by
  induction t generalizing s place with
  | nil => cases h
  | cons c t ih =>
    rw [commentAt?] at h
    rw [beforeComment]
    split at h
    · next hc =>
      cases h
      rw [if_pos hc]
      rfl
    · next hc =>
      rw [if_neg hc, ih h, Nat.add_assoc]
      rfl

/-! ## Headers -/

namespace Header

variable {name : Text}

theorem exists_front {text rest t : Text} (hname : Text.trimStart text = name ++ rest)
    (hbrace : Text.trimStart rest = '{' :: t) : ∃ front, text = front ++ '{' :: t := by
  obtain ⟨a, -, ha⟩ := Text.exists_blanks_append_trimStart text
  obtain ⟨b, -, hb⟩ := Text.exists_blanks_append_trimStart rest
  refine ⟨a ++ name ++ b, ?_⟩
  rw [← ha, hname, ← hb, hbrace, List.append_assoc, List.append_assoc]

/-- A header ends with its brace. -/
theorem exists_front_of_width? {line : Text} {width : Nat} (h : width? name line = some width) :
    ∃ front t, line = front ++ '{' :: t ∧ width = front.length + 1 := by
  obtain ⟨rest, t, hname, hbrace, rfl⟩ := width?_eq_some_iff_exists.1 h
  obtain ⟨front, rfl⟩ := exists_front hname hbrace
  refine ⟨front, t, rfl, ?_⟩
  rw [List.length_append, List.length_cons]
  omega

/-- What follows a text that is a name and blanks. -/
theorem exists_trimStart_append {pending : Text} (h : Text.trim pending = name) (line : Text) :
    ∃ rest, Text.trimStart (pending ++ line) = name ++ rest ∧
      Text.trimStart rest = Text.trimStart line := by
  by_cases hname : name = []
  · rw [hname, Text.trim_eq_nil_iff] at h
    refine ⟨Text.trimStart line, ?_, Text.trimStart_trimStart line⟩
    rw [hname, Text.trimStart_append_of_isAllBlank h, List.nil_append]
  · obtain ⟨a, b, ha, hb, hpending⟩ := Text.exists_blanks_trim_blanks pending
    have htrimmed : Text.trimStart name = name := by
      rw [← h]
      exact Text.trimStart_eq_self (Text.trim_trim pending)
    refine ⟨b ++ line, ?_, Text.trimStart_append_of_isAllBlank hb line⟩
    rw [hpending, h, List.append_assoc, List.append_assoc, Text.trimStart_append_of_isAllBlank ha,
      Text.trimStart_append htrimmed hname]

/-- After a name and blanks a header is a brace. -/
theorem width?_append_of_trim {pending : Text} (h : Text.trim pending = name) (line : Text) :
    width? name (pending ++ line) = (width? [] line).map (pending.length + ·) := by
  obtain ⟨rest, hstart, hrest⟩ := exists_trimStart_append h line
  rw [width?, width?, Text.dropPrefix?_eq_some_iff.2 hstart,
    Text.dropPrefix?_eq_some_iff.2 (List.nil_append _).symm]
  simp only [hrest, Text.trimStart_trimStart]
  split
  · next t ht =>
    have hle := Text.length_trimStart_le line
    rw [ht, List.length_cons] at hle
    rw [Option.map_some, List.length_append]
    congr 1
    omega
  · rfl

/-- A header does not begin behind its brace. -/
theorem start_le_line_of_find {s : Search} {index : Nat} {ls : List Text} {header : Header}
    (hs : ∀ start ∈ s.waiting, start ≤ index)
    (h : find name s.depth s.waiting index ls = some header) : header.start ≤ header.line := by
  induction ls generalizing s index with
  | nil => cases h
  | cons raw ls ih =>
    rw [Search.find_cons] at h
    cases hheader : s.header? name index raw.stripComment with
    | some found =>
      rw [hheader, Option.some_or, Option.some_inj] at h
      subst h
      rw [(width?_of_header? hheader).1]
      unfold Search.header? at hheader
      split at hheader
      · rcases start_eq_of_ending? hheader with hw | ⟨hstart, -⟩
        · exact hs _ hw
        · exact Nat.le_of_eq hstart
      · cases hheader
    | none =>
      rw [hheader, Option.none_or] at h
      refine ih (fun start hstart => ?_) h
      rw [Search.waiting_next] at hstart
      split at hstart
      · rcases waitingAfter_eq_some hstart with hw | ⟨rfl, -⟩
        · exact Nat.le_succ_of_le (hs start hw)
        · exact Nat.le_succ start
      · cases hstart

end Header

namespace Bytewise

theorem stripComment_eq_ok (raw : Text) : stripComment raw = .ok raw.stripComment := by
  unfold stripComment
  split
  · next h => rw [Text.stripComment, Scan.beforeComment_of_commentAt?_eq_none h]
  · next place h =>
    obtain ⟨comment, hraw⟩ := Scan.beforeComment_isPrefix Scan.start raw
    have hcut : Text.cutAt place raw = .ok (raw.stripComment, comment) := by
      refine Text.cutAt_eq_ok_iff.2 ⟨hraw.symm, ?_⟩
      rw [Scan.eq_of_commentAt?_eq_some h, Nat.zero_add]
      rfl
    rw [hcut]
    rfl

variable {name : Text}

theorem brace?_eq_ok (name text : Text) :
    brace? name text =
      .ok ((Header.width? name text).map fun width => utf8Size (text.take (width - 1))) := by
  unfold brace?
  split
  · next h => rw [Header.width?, h]; rfl
  · next rest h =>
    split
    · next hhead =>
      obtain ⟨t, hbrace⟩ := List.head?_eq_some_iff.1 hhead
      have hname := Text.dropPrefix?_eq_some_iff.1 h
      have hwidth := Header.width?_eq_some_iff_exists.2 ⟨rest, t, hname, hbrace, rfl⟩
      obtain ⟨front, rfl⟩ := Header.exists_front hname hbrace
      have hdistance : Text.bytesFrom (utf8Size ('{' :: t)) (utf8Size (front ++ '{' :: t)) =
          .ok (utf8Size front) := by
        rw [Text.bytesFrom_eq_ok_iff, Text.utf8Size_append, Nat.add_comm]
      have hlength : (front ++ '{' :: t).length - t.length - 1 = front.length := by
        rw [List.length_append, List.length_cons]
        omega
      rw [hwidth, hbrace, hdistance, Option.map_some, hlength, List.take_left]
      rfl
    · next hhead =>
      have hnone : Header.width? name text = none := by
        rw [Option.eq_none_iff_forall_ne_some]
        intro width hwidth
        obtain ⟨rest', t, hname, hbrace, -⟩ := Header.width?_eq_some_iff_exists.1 hwidth
        rw [Text.dropPrefix?_eq_some_iff.2 hname, Option.some_inj] at h
        rw [← h, hbrace] at hhead
        exact hhead rfl
      rw [hnone]
      rfl

/-! ## The search -/

section

variable {lines rest : List Text} {raw : Text} {index : Nat}

theorem drop_succ_of_drop_eq_cons (h : lines.drop index = raw :: rest) :
    lines.drop (index + 1) = rest := by
  rw [← List.tail_drop, h]
  rfl

theorem lt_length_of_drop_eq_cons (h : lines.drop index = raw :: rest) : index < lines.length := by
  rw [← Nat.not_le, ← List.drop_eq_nil_iff, h]
  exact List.cons_ne_nil _ _

theorem getD_of_drop_eq_cons (h : lines.drop index = raw :: rest) : lines.getD index [] = raw := by
  rw [List.getD_eq_getElem?_getD, ← List.head?_drop, h]
  rfl

theorem cutAtLine_succ (h : lines.drop index = raw :: rest) :
    Text.cutAtLine (index + 1) lines = .ok (lines.take (index + 1), rest) := by
  rw [Text.cutAtLine_of_le (lt_length_of_drop_eq_cons h), drop_succ_of_drop_eq_cons h]

end

/-- Two searches that stand alike, of which one keeps the text that the name waits in and the other its
line only. -/
inductive Keeps (name : Text) : Search → Header.Search → Prop
  | nothing {depth start : Nat} : Keeps name ⟨depth, [], start⟩ ⟨depth, none⟩
  | waiting {pending : Text} {start : Nat} (hname : Text.trim pending = name) (hne : pending ≠ []) :
      Keeps name ⟨0, pending, start⟩ ⟨0, some start⟩

/-- A header with its width in bytes. -/
def inBytes (raw : Text) (header : Header) : Header :=
  { header with width := utf8Size (raw.take header.width) }

theorem inBytes_eq {line raw : Text} {width : Nat} (hline : line <+: raw)
    (h : Header.width? name line = some width) (start index : Nat) :
    inBytes raw ⟨start, index, width⟩ = ⟨start, index, utf8Size (line.take (width - 1)) + 1⟩ := by
  obtain ⟨front, t, rfl, rfl⟩ := Header.exists_front_of_width? h
  obtain ⟨comment, rfl⟩ := hline
  have hheader : (front ++ '{' :: t ++ comment).take (front.length + 1) = front ++ ['{'] := by
    rw [List.append_assoc, List.take_length_add_append]
    rfl
  have hfront : (front ++ '{' :: t).take (front.length + 1 - 1) = front := List.take_left
  rw [inBytes, hheader, hfront, Text.utf8Size_append]
  rfl

namespace Keeps

variable {s : Search} {s' : Header.Search} {line raw : Text}

theorem header? (h : Keeps name s s') (index : Nat) (hline : line <+: raw) :
    s.header? name index line = .ok ((s'.header? name index line).map (inBytes raw)) := by
  rw [Search.header?, Header.Search.header?]
  cases h with
  | nothing =>
    split
    · simp only [List.nil_append, brace?_eq_ok, Header.ending?]
      cases hwidth : Header.width? name line with
      | none => rfl
      | some width => exact congrArg (Except.ok <| some ·) (inBytes_eq hline hwidth index index).symm
    · rfl
  | @waiting pending start hname hne =>
    simp only [if_true, hne, if_false, brace?_eq_ok, Header.ending?, Header.width?_append_of_trim hname]
    cases hbrace : Header.width? [] line with
    | none =>
      cases hwidth : Header.width? name line with
      | none => rfl
      | some width => exact congrArg (Except.ok <| some ·) (inBytes_eq hline hwidth index index).symm
    | some width =>
      have hdistance : Text.bytesFrom (utf8Size pending)
          (utf8Size ((pending ++ line).take (pending.length + width - 1))) =
          .ok (utf8Size (line.take (width - 1))) := by
        obtain ⟨front, t, rfl, rfl⟩ := Header.exists_front_of_width? hbrace
        rw [Text.bytesFrom_eq_ok_iff, ← Nat.add_assoc, Nat.add_sub_cancel, Nat.add_sub_cancel,
          List.take_length_add_append, List.take_left, Text.utf8Size_append]
      simp only [Option.map_some]
      show (Text.bytesFrom _ _ >>= fun place =>
        Except.ok (some (⟨start, index, place + 1⟩ : Header))) = _
      rw [hdistance]
      exact congrArg (Except.ok <| some ·) (inBytes_eq hline hbrace start index).symm

/-- A text with a brace in it must not wait. -/
example : Search.header? "k8s".toList { pending := "k8s \x7b a".toList } 1 [] = .error .before := rfl

theorem next (h : Keeps name s s') (index : Nat) (line : Text) :
    Keeps name (s.next name index line) (s'.next name index line) := by
  rw [Search.next, Header.Search.next, Header.waitingAfter]
  cases h with
  | @nothing depth start =>
    by_cases hdepth : depth = 0
    · by_cases hline : Text.trim line = name
      · by_cases hnil : line = []
        · -- an empty line is no name to wait for, even if the name is empty
          subst hnil
          have hflat : braces.netChange [] = 0 := rfl
          simpa [hdepth, hline, hflat] using nothing
        · simpa [hdepth, hline, hnil] using waiting hline hnil
      · simpa [hdepth, hline] using nothing
    · simpa [hdepth] using nothing
  | @waiting pending start hname hne =>
    have hblank : Text.trim (pending ++ line) = name ↔ isAllBlank line = true := by
      rw [← hname]
      exact Text.trim_append_eq_iff
    by_cases hline : isAllBlank line = true
    · simpa [hline, hblank, hne] using waiting (hblank.2 hline) (by simp [hne])
    · have hnil : line ≠ [] := by
        rintro rfl
        exact hline rfl
      by_cases htrim : Text.trim line = name
      · simpa [hline, hblank, htrim, hnil] using waiting htrim hnil
      · simpa [hline, hblank, htrim] using nothing

end Keeps

theorem find_eq_ok {lines ls : List Text} {index : Nat} (hls : lines.drop index = ls) {s : Search}
    {s' : Header.Search} (h : Keeps name s s') :
    find name s index ls =
      .ok ((Header.find name s'.depth s'.waiting index ls).map fun header =>
        inBytes (lines.getD header.line []) header) := by
  induction ls generalizing s s' index with
  | nil => rfl
  | cons raw rest ih =>
    have hheader : s.header? name index raw.stripComment =
        .ok ((s'.header? name index raw.stripComment).map (inBytes raw)) :=
      h.header? index (Scan.beforeComment_isPrefix Scan.start raw)
    rw [find, stripComment_eq_ok, Header.Search.find_cons]
    show (s.header? name index raw.stripComment >>= _) = _
    rw [hheader]
    cases hfound : s'.header? name index raw.stripComment with
    | none => exact ih (drop_succ_of_drop_eq_cons hls) (h.next index raw.stripComment)
    | some header =>
      have hline : lines.getD header.line [] = raw := by
        rw [(Header.width?_of_header? hfound).1, getD_of_drop_eq_cons hls]
      show Except.ok (some (inBytes raw header)) =
        Except.ok (some (inBytes (lines.getD header.line []) header))
      rw [hline]

/-! ## The body -/

/-- What a search for the closing brace finds, where the brace is told by its byte. -/
def closingInBytes (place index : Nat) (t : Text) : Delimiter.Closing → Delimiter.Closing
  | .still depth => .still depth
  | .closed pos => .closed (place + utf8Size (t.take (pos - index)))

theorem closing_outsideFrom (s : Scan) (depth place index : Nat) (t : Text) :
    closing depth (s.outsideFrom place t) =
      closingInBytes place index t (braces.closingFrom s depth index t) := by
  induction t generalizing s depth place index with
  | nil => rfl
  | cons c t ih =>
    have hcons : ∀ depth, closing depth ((s.next c).outsideFrom (place + c.utf8Size) t) =
        closingInBytes place index (c :: t) (braces.closingFrom (s.next c) depth (index + 1) t) := by
      intro depth
      rw [ih (s.next c) depth (place + c.utf8Size) (index + 1)]
      cases hclosing : braces.closingFrom (s.next c) depth (index + 1) t with
      | still m => rfl
      | closed pos =>
        have hpos := (Delimiter.lt_length_of_closingFrom hclosing).1
        have hindex : pos - index = pos - (index + 1) + 1 := by omega
        rw [closingInBytes, closingInBytes, hindex, List.take_succ_cons, Text.utf8Size_cons,
          Nat.add_assoc]
    rw [Scan.outsideFrom, Delimiter.closingFrom]
    split
    · rw [closing]
      split
      · exact hcons _
      · split
        · split
          · rw [closingInBytes, Nat.sub_self]
            rfl
          · exact hcons _
        · exact hcons _
    · exact hcons _

theorem take_of_closed {first : Text} {depth pos : Nat}
    (h : braces.closingOf depth first.stripComment = .closed pos) :
    first.take (pos + 1) = first.stripComment.take pos ++ ['}'] := by
  obtain ⟨a, b, -, hline, rfl, -, -⟩ := Delimiter.exists_of_closingFrom_eq_closed h
  obtain ⟨comment, hfirst⟩ := Scan.beforeComment_isPrefix Scan.start first
  have hraw : first = a ++ '}' :: (b ++ comment) := by
    rw [← hfirst, show (Scan.start.beforeComment first).1 = _ from hline, List.append_assoc]
    rfl
  rw [hline, Nat.zero_add, List.take_left]
  conv_lhs => rw [hraw]
  rw [List.take_length_add_append]
  rfl

/-- Where a line is read from the byte after `front` on, it can be cut before and after the closing
brace. -/
theorem read_cons_eq_ok {lines rest : List Text} {index : Nat} (front first : Text) (depth : Nat)
    (hlines : lines.drop index = (front ++ first) :: rest)
    (hrest : ∀ depth, read lines depth 0 (index + 1) rest = .ok (Ending.read depth (index + 1) rest)) :
    read lines depth (utf8Size front) index ((front ++ first) :: rest) =
      .ok (Ending.read depth index (first :: rest)) := by
  have hclosing : closing depth first.stripComment.outsideQuotes =
      closingInBytes 0 0 first.stripComment (braces.closingOf depth first.stripComment) :=
    closing_outsideFrom Scan.start depth 0 0 first.stripComment
  rw [read, Text.cutAt_utf8Size, Ending.read]
  show (stripComment first >>= _) = _
  rw [stripComment_eq_ok]
  show (match closing depth first.stripComment.outsideQuotes with
    | .closed place => _
    | .still depth => _) = _
  rw [hclosing]
  cases hend : braces.closingOf depth first.stripComment with
  | still m =>
    show (read lines m 0 (index + 1) rest >>= _) = _
    rw [hrest]
    rfl
  | closed pos =>
    have hplace : closingInBytes 0 0 first.stripComment (.closed pos) =
        .closed (utf8Size (first.stripComment.take pos)) := congrArg _ (Nat.zero_add _)
    have hkept : Text.cutAt (utf8Size (first.stripComment.take pos)) first.stripComment =
        .ok (first.stripComment.take pos, first.stripComment.drop pos) :=
      Text.cutAt_eq_ok_iff.2 ⟨(List.take_append_drop _ _).symm, rfl⟩
    have htrailing : Text.cutAt (utf8Size front + utf8Size (first.stripComment.take pos) + 1)
        (front ++ first) = .ok (front ++ first.take (pos + 1), first.drop (pos + 1)) := by
      refine Text.cutAt_eq_ok_iff.2 ⟨by rw [List.append_assoc, List.take_append_drop], ?_⟩
      rw [take_of_closed hend, Text.utf8Size_append, Text.utf8Size_append, Nat.add_assoc]
      rfl
    rw [hplace]
    show (Text.cutAt _ first.stripComment >>= _) = _
    rw [hkept]
    show (Text.cutAt _ (front ++ first) >>= _) = _
    rw [htrailing]
    show (Text.cutAtLine (index + 1) lines >>= _) = _
    rw [cutAtLine_succ hlines]
    rfl

theorem read_eq_ok {lines ls : List Text} {index : Nat} (hlines : lines.drop index = ls) (depth : Nat) :
    read lines depth 0 index ls = .ok (Ending.read depth index ls) := by
  induction ls generalizing index depth with
  | nil => rfl
  | cons raw rest ih =>
    exact read_cons_eq_ok [] raw depth hlines (ih (drop_succ_of_drop_eq_cons hlines))

/-! ## The block -/

theorem atHeader_eq_ok {lines rest : List Text} {raw : Text} {header : Header}
    (hline : lines.drop header.line = raw :: rest) (hstart : header.start ≤ lines.length) :
    atHeader lines (inBytes raw header) = .ok (Excerpt.atHeader lines header) := by
  have hbody : read lines 1 (utf8Size (raw.take header.width)) header.line (raw :: rest) =
      .ok (Ending.read 1 header.line (raw.drop header.width :: rest)) := by
    have hparts := List.take_append_drop header.width raw
    have h := read_cons_eq_ok (raw.take header.width) (raw.drop header.width) 1
      (hparts.symm ▸ hline) (read_eq_ok (drop_succ_of_drop_eq_cons hline))
    rwa [hparts] at h
  rw [atHeader, Excerpt.atHeader_of_drop hline, Excerpt.around]
  show (Text.cutAtLine header.start lines >>= _) = _
  rw [Text.cutAtLine_of_le hstart]
  show (read lines 1 (utf8Size (raw.take header.width)) header.line (lines.drop header.line) >>= _) = _
  rw [hline, hbody]
  obtain ⟨body, ending⟩ := Ending.read 1 header.line (raw.drop header.width :: rest)
  cases ending with
  | unterminated => rfl
  | closed closing trailing after =>
    show (stripComment trailing >>= _) = _
    rw [stripComment_eq_ok]
    show (if isAllBlank trailing.stripComment then Except.ok _ else Except.ok _) =
      Except.ok (if isAllBlank trailing.stripComment then _ else _)
    split
    · rfl
    · rfl

/-- No distance that cutting out a block measures is negative, and each byte and each line that it cuts
at is a place to cut at, whatever the name and the lines are.  The block is the one that is cut out by
characters. -/
theorem excerpt_eq_ok (name : Text) (lines : List Text) :
    excerpt name lines = .ok (Excerpt.ofLines name lines) := by
  have hfind : find name {} 0 lines =
      .ok ((Header.find name 0 none 0 lines).map fun header =>
        inBytes (lines.getD header.line []) header) :=
    find_eq_ok rfl Keeps.nothing
  rw [excerpt, Excerpt.ofLines, hfind]
  cases hheader : Header.find name 0 none 0 lines with
  | none => rfl
  | some header =>
    obtain ⟨n, raw, rest, hline, hdrop, -⟩ := Header.exists_of_find (s := {}) hheader
    have hle : header.start ≤ header.line := by
      refine Header.start_le_line_of_find (s := {}) (fun start hstart => ?_) hheader
      cases hstart
    rw [Nat.zero_add] at hline
    rw [← hline] at hdrop
    have hlt : header.line < lines.length := lt_length_of_drop_eq_cons hdrop
    have hraw : lines.getD header.line [] = raw := getD_of_drop_eq_cons hdrop
    show (atHeader lines (inBytes (lines.getD header.line []) header) >>= _) = _
    rw [hraw, atHeader_eq_ok hdrop (hle.trans (Nat.le_of_lt hlt))]
    rfl

end Bytewise
end HeadJob
