import HeadJob.Config.Block
import HeadJob.Config.Placeholder
import HeadJob.Proofs.Config.Scan

/-!
The search for the header of a block, line by line.

The lines in front of a block are lines that the search passes over.  They leave it at the top level,
and so the same lines in front of a header written as `name {` lead to that header.
-/

namespace HeadJob

theorem Placeholder.isBlank_of_isKeyChar {c : Char} (h : Placeholder.isKeyChar c = true) :
    Text.isBlank c = false := by
  rw [Placeholder.isKeyChar] at h
  delta Char.isAlphanum Char.isAlpha Char.isUpper Char.isLower Char.isDigit at h
  simp only [Bool.or_eq_true, Bool.and_eq_true, decide_eq_true_eq, beq_iff_eq,
    UInt32.le_iff_toNat_le] at h
  have hc : 48 ≤ c.toNat ∧ c.toNat ≤ 122 := by
    rcases h with ((h | h) | h) | rfl
    · exact ⟨by have := h.1; simp at this; omega, by have := h.2; simp at this; omega⟩
    · exact ⟨by have := h.1; simp at this; omega, by have := h.2; simp at this; omega⟩
    · exact ⟨by have := h.1; simp at this; omega, by have := h.2; simp at this; omega⟩
    · decide
  rw [Bool.eq_false_iff]
  simp only [Text.isBlank, ne_eq, Bool.or_eq_true, Bool.and_eq_true, decide_eq_true_eq,
    beq_iff_eq]
  omega

namespace Header

/-- Where a search stands: how many braces deep, and the line of a name that still lacks its
brace. -/
structure Search where
  depth : Nat := 0
  waiting : Option Nat := none
  deriving DecidableEq, Repr

namespace Search

variable (name : Text)

def header? (s : Search) (index : Nat) (line : Text) : Option Header :=
  if s.depth = 0 then ending? name s.waiting index line else none

/-- The search after a line that completes no header. -/
def next (s : Search) (index : Nat) (line : Text) : Search :=
  let waiting := if s.depth = 0 then waitingAfter name s.waiting index line else none
  if waiting.isSome then ⟨0, waiting⟩
  else ⟨((s.depth : Int) + Delimiter.braces.netChange line).toNat, none⟩

theorem waiting_next (s : Search) (index : Nat) (line : Text) :
    (s.next name index line).waiting =
      if s.depth = 0 then waitingAfter name s.waiting index line else none := by
  unfold next
  dsimp only
  generalize (if s.depth = 0 then _ else _ : Option Nat) = waiting
  cases waiting <;> rfl

/-- The search after lines, unless one of them completes a header. -/
def after? (s : Search) (index : Nat) : List Text → Option Search
  | [] => some s
  | raw :: rest =>
    if (s.header? name index raw.stripComment).isSome then none
    else (s.next name index raw.stripComment).after? (index + 1) rest

theorem find_cons (s : Search) (index : Nat) (raw : Text) (rest : List Text) :
    find name s.depth s.waiting index (raw :: rest) =
      (s.header? name index raw.stripComment).or
        (find name (s.next name index raw.stripComment).depth
          (s.next name index raw.stripComment).waiting (index + 1) rest) := by
  obtain ⟨depth, waiting⟩ := s
  rw [find, header?, next]
  by_cases hd : depth = 0
  · subst hd
    simp only [if_true]
    cases ending? name waiting index raw.stripComment with
    | some header => rfl
    | none =>
      simp only [Option.none_or]
      split
      · rfl
      · rfl
  · simp [hd]

theorem find_append_of_after? {s s' : Search} {index : Nat} {a : List Text}
    (h : s.after? name index a = some s') (b : List Text) :
    find name s.depth s.waiting index (a ++ b) =
      find name s'.depth s'.waiting (index + a.length) b := by
  induction a generalizing s index with
  | nil => cases h; rfl
  | cons raw a ih =>
    rw [after?] at h
    split at h
    · cases h
    · next hheader =>
      rw [List.cons_append, find_cons, Option.not_isSome_iff_eq_none.1 hheader, Option.none_or,
        ih h, List.length_cons, Nat.add_right_comm, Nat.add_assoc]

theorem exists_after?_of_find_eq_none {s : Search} {index : Nat} {ls : List Text}
    (h : find name s.depth s.waiting index ls = none) :
    ∃ s', s.after? name index ls = some s' := by
  induction ls generalizing s index with
  | nil => exact ⟨s, rfl⟩
  | cons raw ls ih =>
    rw [find_cons, Option.or_eq_none_iff] at h
    obtain ⟨s', hs'⟩ := ih h.2
    refine ⟨s', ?_⟩
    rw [after?, if_neg (by rw [h.1]; simp), hs']

end Search

/-! ## The header of a text -/

variable {name : Text}

/-- With no name, a brace that opens a line after a waiting name is a header of its own line. -/
theorem start_eq_of_ending? {waiting : Option Nat} {index : Nat} {line : Text} {header : Header}
    (h : ending? name waiting index line = some header) :
    waiting = some header.start ∨ header.start = index ∧ (name = [] → waiting = none) := by
  unfold ending? at h
  split at h
  · cases h
    exact .inl rfl
  · next hno =>
    obtain ⟨width, hw, rfl⟩ := Option.map_eq_some_iff.1 h
    refine .inr ⟨rfl, fun hname => ?_⟩
    rw [hname] at hw
    exact Option.eq_none_iff_forall_ne_some.2 fun start hs => hno start width hs hw

/-- A name begins to wait on its own line, or it has waited since an earlier one. -/
theorem waitingAfter_eq_some {waiting : Option Nat} {index start : Nat} {line : Text}
    (h : waitingAfter name waiting index line = some start) :
    waiting = some start ∨ start = index ∧ (name = [] → waiting = none) := by
  unfold waitingAfter at h
  split at h
  · exact .inl h
  · next hblank =>
    split at h
    · next hline =>
      cases h
      refine .inr ⟨rfl, fun hname => ?_⟩
      rw [hname, Text.trim_eq_nil_iff] at hline
      cases waiting with
      | none => rfl
      | some start => exact absurd ⟨rfl, hline.1⟩ hblank
    · cases h

/-- The lines in front of a header are passed over, up to a name that has waited from the start. -/
theorem exists_after?_of_find {s : Search} {index : Nat} {ls : List Text} {header : Header}
    (h : find name s.depth s.waiting index ls = some header) :
    s.depth = 0 ∧ s.waiting = some header.start ∨
      ∃ n s', header.start = index + n ∧ s.after? name index (ls.take n) = some s' ∧
        s'.depth = 0 ∧ (name = [] → s'.waiting = none) := by
  induction ls generalizing s index with
  | nil => cases h
  | cons raw ls ih =>
    rw [Search.find_cons] at h
    cases hheader : s.header? name index raw.stripComment with
    | some found =>
      rw [hheader, Option.some_or, Option.some_inj] at h
      subst h
      have hdepth : s.depth = 0 := by
        by_contra hd
        rw [Search.header?, if_neg hd] at hheader
        cases hheader
      rw [Search.header?, if_pos hdepth] at hheader
      rcases start_eq_of_ending? hheader with hw | ⟨hstart, hw⟩
      · exact .inl ⟨hdepth, hw⟩
      · exact .inr ⟨0, s, hstart, rfl, hdepth, hw⟩
    | none =>
      rw [hheader, Option.none_or] at h
      rcases ih h with ⟨-, hw⟩ | ⟨n, s', hn, hs', hdepth, hwait⟩
      · by_cases hd : s.depth = 0
        · rw [Search.next] at hw
          simp only [hd, if_true] at hw
          split at hw
          · rcases waitingAfter_eq_some hw with hw | ⟨hstart, hw⟩
            · exact .inl ⟨hd, hw⟩
            · exact .inr ⟨0, s, hstart, rfl, hd, hw⟩
          · cases hw
        · simp [Search.next, hd] at hw
      · refine .inr ⟨n + 1, s', by omega, ?_, hdepth, hwait⟩
        rw [List.take_succ_cons, Search.after?, if_neg (by rw [hheader]; simp), hs']

/-- The lines in front of the first header of a text are passed over from the top level to the
top level. -/
theorem after?_take_start {ls : List Text} {header : Header}
    (h : find name 0 none 0 ls = some header) :
    ∃ s, Search.after? name {} 0 (ls.take header.start) = some s ∧ s.depth = 0 ∧
      (name = [] → s.waiting = none) := by
  rcases exists_after?_of_find (s := {}) h with ⟨-, hw⟩ | ⟨n, s, hn, hs⟩
  · cases hw
  · rw [hn, Nat.zero_add]
    exact ⟨s, hs⟩

/-! ## Blanks at the end of a line -/

/-- A header is told by what it leaves of its line. -/
theorem width?_eq_some_iff_exists {line : Text} {width : Nat} :
    width? name line = some width ↔
      ∃ rest t, Text.trimStart line = name ++ rest ∧ Text.trimStart rest = '{' :: t ∧
        width = line.length - t.length := by
  unfold width?
  split
  · next h =>
    refine iff_of_false (fun h => nomatch h) fun ⟨rest, t, hline, _⟩ => ?_
    rw [Text.dropPrefix?_eq_some_iff.2 hline] at h
    cases h
  · next rest h =>
    rw [Text.dropPrefix?_eq_some_iff] at h
    constructor
    · intro hwidth
      split at hwidth
      · next t ht =>
        cases hwidth
        exact ⟨rest, t, h, ht, rfl⟩
      · cases hwidth
    · rintro ⟨rest', t, hline, ht, rfl⟩
      rw [h, List.append_cancel_left_eq] at hline
      subst hline
      rw [ht]
      rfl

theorem width?_append_blanks {b : Text} (hb : Text.isAllBlank b = true) (name line : Text) :
    width? name (line ++ b) = width? name line := by
  have hbrace : '{' ∉ b := fun h => absurd (List.all_eq_true.1 hb _ h) (by decide)
  have hend : ∀ {t : Text}, Text.trimStart t = [] → Text.trimStart (t ++ b) = [] := by
    intro t h
    rw [Text.trimStart_append_of_isAllBlank (Text.trimStart_eq_nil_iff.1 h)]
    exact Text.trimStart_of_isAllBlank hb
  have hlength : ∀ t : Text, (line ++ b).length - (t ++ b).length = line.length - t.length := by
    intro t
    rw [List.length_append, List.length_append]
    omega
  refine Option.ext fun width => ?_
  rw [width?_eq_some_iff_exists, width?_eq_some_iff_exists]
  constructor
  · rintro ⟨rest, t, hline, ht, rfl⟩
    have hline' : Text.trimStart line ≠ [] := by
      intro h
      rw [hend h] at hline
      rw [(List.append_eq_nil_iff.1 hline.symm).2] at ht
      cases ht
    rw [Text.trimStart_append_of_ne_nil hline'] at hline
    rcases List.append_eq_append_iff.1 hline with ⟨x, -, hx⟩ | ⟨x, hx, rfl⟩
    · -- the brace would stand among the blanks
      have hmem : '{' ∈ Text.trimStart rest := by
        rw [ht]
        exact List.mem_cons_self
      refine absurd ?_ hbrace
      rw [hx]
      exact List.mem_append_right _ ((List.dropWhile_suffix _).subset hmem)
    · have hx' : Text.trimStart x ≠ [] := by
        intro h
        rw [hend h] at ht
        cases ht
      rw [Text.trimStart_append_of_ne_nil hx'] at ht
      cases hbegin : Text.trimStart x with
      | nil => exact absurd hbegin hx'
      | cons c t' =>
        rw [hbegin] at ht
        injection ht with hc ht
        subst hc ht
        exact ⟨x, t', hx, hbegin, hlength t'⟩
  · rintro ⟨rest, t, hline, ht, rfl⟩
    have hrest : Text.trimStart rest ≠ [] := by
      rw [ht]
      exact List.cons_ne_nil _ _
    have hline' : Text.trimStart line ≠ [] := by
      intro h
      rw [h] at hline
      rw [(List.append_eq_nil_iff.1 hline.symm).2] at hrest
      exact hrest rfl
    refine ⟨rest ++ b, t ++ b, ?_, ?_, (hlength t).symm⟩
    · rw [Text.trimStart_append_of_ne_nil hline', hline, List.append_assoc]
    · rw [Text.trimStart_append_of_ne_nil hrest, ht, List.cons_append]

theorem trim_eq_and_ne_nil_iff (hname : name ≠ []) (line : Text) :
    Text.trim line = name ∧ line ≠ [] ↔ Text.trim line = name := by
  refine ⟨And.left, fun h => ⟨h, ?_⟩⟩
  rintro rfl
  exact hname h.symm

namespace Search

variable {b : Text}

theorem header?_append_blanks (hb : Text.isAllBlank b = true) (s : Search) (index : Nat)
    (line : Text) : s.header? name index (line ++ b) = s.header? name index line := by
  unfold header? ending?
  rw [width?_append_blanks hb, width?_append_blanks hb]

theorem next_append_blanks (hname : name ≠ []) (hb : Text.isAllBlank b = true) (s : Search)
    (index : Nat) (line : Text) : s.next name index (line ++ b) = s.next name index line := by
  have htrim : Text.trim (line ++ b) = Text.trim line := Text.trim_append_blanks (a := []) rfl hb line
  have hblank : Text.isAllBlank (line ++ b) = Text.isAllBlank line := by
    rw [Text.isAllBlank_append, hb, Bool.and_true]
  have hwaiting : waitingAfter name s.waiting index (line ++ b) =
      waitingAfter name s.waiting index line := by
    rw [waitingAfter, waitingAfter, hblank, if_congr (trim_eq_and_ne_nil_iff hname _) rfl rfl,
      if_congr (trim_eq_and_ne_nil_iff hname _) rfl rfl, htrim]
  rw [next, next, hwaiting, Delimiter.netChange_append_blanks (by decide) (by decide) hb]

/-- Carriage returns at the ends of lines make no difference to a search. -/
theorem after?_map_chomp (hname : name ≠ []) (s : Search) (index : Nat) (ls : List Text) :
    s.after? name index (ls.map Text.chomp) = s.after? name index ls := by
  induction ls generalizing s index with
  | nil => rfl
  | cons raw ls ih =>
    rw [List.map_cons, after?, after?]
    rcases Text.stripComment_chomp raw with h | h
    · rw [h, ih]
    · rw [h, header?_append_blanks (by decide), next_append_blanks hname (by decide), ih]

end Search

/-! ## Names made of letters, digits and underscores -/

/-- The depth after a line, where more braces are closed than opened at most down to the top
level. -/
def clampedDepth (depth : Nat) (line : Text) : Nat :=
  ((depth : Int) + Delimiter.braces.netChange line.stripComment).toNat

/-- A line of a name, or a blank one after it, holds no braces. -/
theorem netChange_of_waitingAfter (hname : ∀ c ∈ name, Placeholder.isKeyChar c = true)
    {waiting : Option Nat} {index : Nat} {line : Text}
    (h : (waitingAfter name waiting index line).isSome = true) :
    Delimiter.braces.netChange line = 0 := by
  have hplain : ∀ c ∈ line, Text.isBlank c = true ∨ Placeholder.isKeyChar c = true := by
    unfold waitingAfter at h
    split at h
    · next hblank => exact fun c hc => .inl (List.all_eq_true.1 hblank.2 c hc)
    · split at h
      · next hline =>
        obtain ⟨a, b, ha, hb, hab⟩ := Text.exists_blanks_trim_blanks line
        rw [hline.1] at hab
        intro c hc
        rw [hab, List.mem_append, List.mem_append] at hc
        rcases hc with (hc | hc) | hc
        · exact .inl (List.all_eq_true.1 ha c hc)
        · exact .inr (hname c hc)
        · exact .inl (List.all_eq_true.1 hb c hc)
      · cases h
  have hnot : ∀ d, Text.isBlank d = false → Placeholder.isKeyChar d = false →
      d ∉ Scan.start.outside line := by
    intro d hblank hkey hd
    rcases hplain d (Scan.outside_subset _ _ hd) with h | h
    · rw [hblank] at h; cases h
    · rw [hkey] at h; cases h
  exact Delimiter.balance_of_notMem (hnot _ (by decide) (by decide)) (hnot _ (by decide) (by decide))

theorem depth_next (hname : ∀ c ∈ name, Placeholder.isKeyChar c = true) (s : Search)
    (index : Nat) (raw : Text) :
    (s.next name index raw.stripComment).depth = clampedDepth s.depth raw := by
  unfold Search.next
  by_cases hd : s.depth = 0
  · simp only [hd, if_true]
    split
    · next hw => rw [clampedDepth, netChange_of_waitingAfter hname hw]; rfl
    · rfl
  · simp [hd, clampedDepth]

theorem depth_after? (hname : ∀ c ∈ name, Placeholder.isKeyChar c = true) {s s' : Search}
    {index : Nat} {ls : List Text} (h : s.after? name index ls = some s') :
    s'.depth = ls.foldl clampedDepth s.depth := by
  induction ls generalizing s index with
  | nil => cases h; rfl
  | cons raw ls ih =>
    rw [Search.after?] at h
    split at h
    · cases h
    · rw [ih h, List.foldl_cons, depth_next hname]

def written (name : Text) : Text := name ++ " \x7b".toList

theorem stripComment_written (hname : ∀ c ∈ name, Placeholder.isKeyChar c = true) :
    (written name).stripComment = written name := by
  have hslash : '/' ∉ written name := by
    intro hmem
    rcases List.mem_append.1 hmem with h | h
    · exact absurd (hname _ h) (by decide)
    · exact absurd h (by decide)
  exact Scan.isBare_of_notMem hslash Scan.start

theorem width?_written (hname : ∀ c ∈ name, Placeholder.isKeyChar c = true) :
    width? name (written name) = some (written name).length := by
  cases name with
  | nil => rfl
  | cons c name =>
    have hc : Text.isBlank c = false := Placeholder.isBlank_of_isKeyChar (hname c (by simp))
    rw [width?, written, List.cons_append, Text.trimStart_cons hc, ← List.cons_append,
      Text.dropPrefix?_eq_some_iff.2 rfl]
    rfl

theorem find_written (hname : ∀ c ∈ name, Placeholder.isKeyChar c = true) {s : Search}
    (hdepth : s.depth = 0) (hwaiting : name = [] → s.waiting = none) (index : Nat)
    (rest : List Text) :
    find name s.depth s.waiting index (written name :: rest) =
      some ⟨index, index, (written name).length⟩ := by
  have hending : ending? name s.waiting index (written name) =
      some ⟨index, index, (written name).length⟩ := by
    unfold ending?
    split
    · next start width hw hwidth =>
      -- a name that is not empty stands in front of the brace
      exfalso
      cases name with
      | nil => rw [hwaiting rfl] at hw; cases hw
      | cons c name =>
        have hc : Text.isBlank c = false := Placeholder.isBlank_of_isKeyChar (hname c (by simp))
        have hbrace : c ≠ '{' := by
          rintro rfl
          exact absurd (hname '{' (by simp)) (by decide)
        rw [width?, written, List.cons_append, Text.trimStart_cons hc,
          Text.dropPrefix?_eq_some_iff.2 (List.nil_append _).symm] at hwidth
        simp only [Text.trimStart_cons hc] at hwidth
        split at hwidth
        · next t heq => injection heq with h _; exact hbrace h
        · cases hwidth
    · rw [width?_written hname]
      rfl
  rw [Search.find_cons, Search.header?, if_pos hdepth, stripComment_written hname, hending,
    Option.some_or]

end Header
end HeadJob
