import Mathlib.Data.List.DropRight
import Mathlib.Tactic.Common
import HeadJob.Text.Basic

/-!
Trimmed texts, and texts that are one line.

The lines of a written text are the lines it was written from: a line that holds no line end comes
back as it was, and only an empty line at the very end is lost.
-/

namespace HeadJob
namespace Text

/-! ## Trimming -/

theorem trimStart_append_of_isAllBlank {s : Text} (h : isAllBlank s = true) (t : Text) :
    trimStart (s ++ t) = trimStart t := by
  induction s with
  | nil => rfl
  | cons c s ih =>
    simp only [isAllBlank, List.all_cons, Bool.and_eq_true] at h
    rw [List.cons_append, trimStart, List.dropWhile_cons_of_pos h.1]
    exact ih h.2

theorem trim_append_of_isAllBlank {s : Text} (h : isAllBlank s = true) (t : Text) :
    trim (s ++ t) = trim t := by
  rw [trim, trimStart_append_of_isAllBlank h, trim]

theorem trimEnd_append_of_isAllBlank {s : Text} (h : isAllBlank s = true) (t : Text) :
    trimEnd (t ++ s) = trimEnd t := by
  have hrev := trimStart_append_of_isAllBlank ((isAllBlank_reverse s).trans h) t.reverse
  rw [trimEnd, List.reverse_append]
  exact congrArg List.reverse hrev

theorem trimStart_cons {c : Char} (h : isBlank c = false) (t : Text) :
    trimStart (c :: t) = c :: t := by
  rw [trimStart, List.dropWhile_cons_of_neg (by simp [h])]

theorem trimStart_append {s : Text} (hs : trimStart s = s) (hne : s ≠ []) (t : Text) :
    trimStart (s ++ t) = s ++ t := by
  cases s with
  | nil => exact absurd rfl hne
  | cons c s =>
    have hc : isBlank c = false := by
      by_contra h
      have hlen := congrArg List.length hs
      rw [trimStart, List.dropWhile_cons_of_pos (by simpa using h)] at hlen
      have := (List.dropWhile_suffix (l := s) isBlank).length_le
      simp only [List.length_cons] at hlen
      omega
    exact trimStart_cons hc _

theorem trimStart_trimStart (t : Text) : trimStart (trimStart t) = trimStart t :=
  List.dropWhile_idempotent _ _

theorem trimStart_append_of_ne_nil {t : Text} (h : trimStart t ≠ []) (s : Text) :
    trimStart (t ++ s) = trimStart t ++ s := by
  obtain ⟨b, hb, ht⟩ := exists_blanks_append_trimStart t
  conv_lhs => rw [← ht]
  rw [List.append_assoc, trimStart_append_of_isAllBlank hb, trimStart_append (trimStart_trimStart t) h]

theorem trimEnd_append {t : Text} (ht : trimEnd t = t) (hne : t ≠ []) (s : Text) :
    trimEnd (s ++ t) = s ++ t := by
  have hrev : trimStart t.reverse = t.reverse := by
    rw [← ht, trimEnd, List.reverse_reverse, trimStart, List.dropWhile_idempotent]
  have h := trimStart_append hrev (by simpa using hne) s.reverse
  rw [trimEnd, List.reverse_append]
  rw [trimStart] at h
  rw [h, List.reverse_append, List.reverse_reverse, List.reverse_reverse]

theorem length_trimStart_le (t : Text) : (trimStart t).length ≤ t.length :=
  (List.dropWhile_suffix isBlank).length_le

theorem length_trimEnd_le (t : Text) : (trimEnd t).length ≤ t.length := by
  simpa [trimEnd, trimStart] using length_trimStart_le t.reverse

theorem trimStart_eq_self {t : Text} (h : trim t = t) : trimStart t = t := by
  refine (List.dropWhile_suffix isBlank).eq_of_length_le ?_
  have := length_trimEnd_le (trimStart t)
  rw [show trimEnd (trimStart t) = t from h] at this
  exact this

theorem trimEnd_eq_self {t : Text} (h : trim t = t) : trimEnd t = t := by
  have h' : trimEnd (trimStart t) = t := h
  rwa [trimStart_eq_self h] at h'

/-- What begins and ends with trimmed texts is trimmed, whatever stands between them. -/
theorem trim_append_append {s t : Text} (hs : trim s = s) (hs' : s ≠ []) (ht : trim t = t)
    (ht' : t ≠ []) (m : Text) : trim (s ++ m ++ t) = s ++ m ++ t := by
  rw [trim, List.append_assoc, trimStart_append (trimStart_eq_self hs) hs', ← List.append_assoc,
    trimEnd_append (trimEnd_eq_self ht) ht']

/-- Trimming takes a run of blanks off either end and nothing else. -/
theorem exists_blanks_trim_blanks (t : Text) :
    ∃ a b, isAllBlank a = true ∧ isAllBlank b = true ∧ t = a ++ trim t ++ b := by
  obtain ⟨a, ha, hat⟩ := exists_blanks_append_trimStart t
  obtain ⟨b, hb, hbt⟩ := exists_trimEnd_append_blanks (trimStart t)
  refine ⟨a, b, ha, hb, ?_⟩
  rw [List.append_assoc, show trim t ++ b = trimStart t from hbt, hat]

theorem trim_append_blanks {a b : Text} (ha : isAllBlank a = true) (hb : isAllBlank b = true)
    (t : Text) : trim (a ++ t ++ b) = trim t := by
  rw [List.append_assoc, trim_append_of_isAllBlank ha]
  obtain ⟨c, hc, ht⟩ := exists_blanks_append_trimStart t
  by_cases h : trimStart t = []
  · have hblank : isAllBlank (t ++ b) = true := by
      rw [isAllBlank_append, trimStart_eq_nil_iff.1 h, hb]
      rfl
    rw [trim_of_isAllBlank hblank, trim, h]
    rfl
  · conv_lhs => rw [← ht]
    rw [List.append_assoc, trim_append_of_isAllBlank hc, trim,
      trimStart_append (trimStart_trimStart t) h, trimEnd_append_of_isAllBlank hb, trim]

theorem isAllBlank_iff_countP {t : Text} : isAllBlank t = true ↔ t.countP (!isBlank ·) = 0 := by
  rw [List.countP_eq_zero, isAllBlank, List.all_eq_true]
  simp only [Bool.not_eq_true', Bool.not_eq_false]

/-- Text that is trimmed away together with what stands before it is blank. -/
theorem trim_append_eq_iff {s t : Text} : trim (s ++ t) = trim s ↔ isAllBlank t = true := by
  constructor
  · -- the other characters of `s` are those of its trimmed text, so `t` has none
    intro h
    obtain ⟨a, b, ha, hb, hs⟩ := exists_blanks_trim_blanks s
    obtain ⟨a', b', ha', hb', hst⟩ := exists_blanks_trim_blanks (s ++ t)
    rw [isAllBlank_iff_countP] at ha hb ha' hb' ⊢
    have hcount := congrArg (List.countP (!isBlank ·)) hs
    have hcount' := congrArg (List.countP (!isBlank ·)) hst
    rw [h] at hcount'
    simp only [List.countP_append] at hcount hcount'
    omega
  · intro ht
    exact trim_append_blanks (a := []) rfl ht s

theorem trimEnd_trimEnd (t : Text) : trimEnd (trimEnd t) = trimEnd t := by
  simp [trimEnd, List.dropWhile_idempotent]

theorem trim_trim (t : Text) : trim (trim t) = trim t := by
  by_cases h : trim t = []
  · rw [h]; rfl
  · -- the first character of `trimStart t` survives trimming at the end
    obtain ⟨b, -, hb⟩ := exists_trimEnd_append_blanks (trimStart t)
    have hstart : trimStart (trim t) = trim t := by
      cases ht : trim t with
      | nil => exact absurd ht h
      | cons c r =>
        rw [show trimEnd (trimStart t) = c :: r from ht, List.cons_append] at hb
        have hc : isBlank c = false := by
          by_contra hc
          have hself := trimStart_trimStart t
          rw [← hb, trimStart, List.dropWhile_cons_of_pos (by simpa using hc)] at hself
          have := congrArg List.length hself
          have := length_trimStart_le (r ++ b)
          rw [trimStart] at this
          simp only [List.length_cons] at *
          omega
        exact trimStart_cons hc r
    rw [trim, hstart, show trim t = trimEnd (trimStart t) from rfl, trimEnd_trimEnd]

theorem head?_trim (t : Text) : (trim t).head? = (trimStart t).head? := by
  obtain ⟨b, -, hb⟩ := exists_trimEnd_append_blanks (trimStart t)
  cases ht : trim t with
  | nil => rw [trimStart_of_isAllBlank (trim_eq_nil_iff.1 ht)]
  | cons c r =>
    rw [show trimEnd (trimStart t) = c :: r from ht] at hb
    rw [← hb]
    rfl

theorem isBlank_getLast?_trim {t : Text} : ∀ c ∈ (trim t).getLast?, isBlank c = false := by
  intro c hc
  rw [trim, trimEnd, List.getLast?_reverse] at hc
  have hhead := List.head?_dropWhile_not isBlank (trimStart t).reverse
  rwa [hc] at hhead

/-! ## The first place of a character -/

/-- What stands before a character is as long as any beginning without it. -/
theorem exists_append_of_notMem {s p t u : Text} {c : Char} (hc : c ∉ p)
    (h : s ++ c :: t = p ++ u) : ∃ s', s = p ++ s' ∧ s' ++ c :: t = u := by
  rcases List.append_eq_append_iff.1 h with ⟨x, rfl, hx⟩ | ⟨x, rfl, hx⟩
  · cases x with
    | nil => exact ⟨[], by simp, by simpa using hx⟩
    | cons d x =>
      injection hx with hd _
      exact absurd (by simp [hd]) hc
  · exact ⟨x, rfl, hx.symm⟩

theorem eq_of_append_cons {s s' t t' : Text} {c : Char} (hs : c ∉ s) (hs' : c ∉ s')
    (h : s ++ c :: t = s' ++ c :: t') : s = s' := by
  obtain ⟨x, rfl, hx⟩ := exists_append_of_notMem hs' h
  cases x with
  | nil => exact List.append_nil s'
  | cons d x =>
    injection hx with hd _
    exact absurd (by simp [hd]) hs

/-! ## Lines -/

def chomp (t : Text) : Text := if t.getLast? = some '\r' then t.dropLast else t

/-- A text that comes back as a line when it is written as one: it holds no line feed, and a carriage
return at its end would be taken for a part of the line end. -/
def IsLine (t : Text) : Prop := '\n' ∉ t ∧ t.getLast? ≠ some '\r'

instance (t : Text) : Decidable (IsLine t) :=
  inferInstanceAs (Decidable (_ ∧ _))

theorem IsLine.chomp {t : Text} (h : IsLine t) : chomp t = t := if_neg h.2

theorem eq_chomp_or (t : Text) : t = chomp t ∨ t = chomp t ++ ['\r'] := by
  by_cases h : t.getLast? = some '\r'
  · right
    rw [chomp, if_pos h]
    exact (List.dropLast_append_getLast? _ h).symm
  · exact .inl (if_neg h).symm

theorem chomp_cons_cons (c d : Char) (t : Text) : chomp (c :: d :: t) = c :: chomp (d :: t) := by
  rw [chomp, chomp, List.getLast?_cons_cons]
  split <;> rfl

theorem isLine_of_trim {t : Text} (h : trim t = t) (hn : '\n' ∉ t) : IsLine t := by
  refine ⟨hn, fun hlast => ?_⟩
  have hend := trimEnd_eq_self h
  rw [← List.dropLast_append_getLast? _ hlast,
    trimEnd_append_of_isAllBlank (show isAllBlank ['\r'] = true by decide)] at hend
  have := congrArg List.length hend
  have := length_trimEnd_le t.dropLast
  simp only [List.length_append, List.length_singleton] at *
  omega

theorem trim_sublist (t : Text) : (trim t).Sublist t := by
  obtain ⟨a, b, -, -, h⟩ := exists_blanks_trim_blanks t
  conv_rhs => rw [h]
  rw [List.append_assoc]
  exact (List.sublist_append_left _ _).trans (List.sublist_append_right _ _)

theorem lines_cons {c : Char} {t : Text} (hn : c ≠ '\n') (hr : c = '\r' → t.head? ≠ some '\n') :
    lines (c :: t) = consLine c (lines t) := by
  rw [lines]
  · rintro t' rfl rfl
    exact hr rfl rfl
  · exact hn

theorem lines_append_newline {l : Text} (hl : '\n' ∉ l) (t : Text) :
    lines (l ++ '\n' :: t) = chomp l :: lines t := by
  induction l with
  | nil => rw [List.nil_append, lines]; rfl
  | cons c l ih =>
    simp only [List.mem_cons, not_or] at hl
    cases l with
    | nil =>
      by_cases hc : c = '\r'
      · subst hc
        rfl
      · rw [List.singleton_append, lines_cons (Ne.symm hl.1) fun h => absurd h hc, lines]
        simp [consLine, chomp, hc]
    | cons d l =>
      have hd : '\n' ≠ d := fun h => hl.2 (h ▸ List.mem_cons_self)
      rw [List.cons_append, lines_cons (Ne.symm hl.1) (by simpa using fun _ => Ne.symm hd),
        ih hl.2, chomp_cons_cons]
      rfl

theorem lines_of_notMem {l : Text} (hl : '\n' ∉ l) (hne : l ≠ []) : lines l = [l] := by
  induction l with
  | nil => exact absurd rfl hne
  | cons c l ih =>
    simp only [List.mem_cons, not_or] at hl
    cases l with
    | nil => rw [lines_cons (Ne.symm hl.1) fun _ => by simp]; rfl
    | cons d l =>
      have hd : '\n' ≠ d := fun h => hl.2 (h ▸ List.mem_cons_self)
      rw [lines_cons (Ne.symm hl.1) (by simpa using fun _ => Ne.symm hd), ih hl.2 (by simp)]
      rfl

theorem lines_unlines_append {ls : List Text} (hls : ∀ l ∈ ls, '\n' ∉ l) (t : Text) :
    lines (unlines ls ++ t) = ls.map chomp ++ lines t := by
  induction ls with
  | nil => rfl
  | cons l ls ih =>
    rw [unlines, List.flatMap_cons, List.append_assoc, List.append_assoc, List.singleton_append,
      lines_append_newline (hls l List.mem_cons_self), List.map_cons, List.cons_append]
    exact congrArg _ (ih fun l' hl' => hls l' (List.mem_cons_of_mem l hl'))

theorem map_chomp {ls : List Text} (hls : ∀ l ∈ ls, IsLine l) : ls.map chomp = ls :=
  (List.map_congr_left fun l hl => (hls l hl).chomp).trans (List.map_id _)

theorem join_cons_cons (l l' : Text) (ls : List Text) :
    join ['\n'] (l :: l' :: ls) = l ++ '\n' :: join ['\n'] (l' :: ls) := by
  simp [join, List.intercalate]

theorem join_singleton (l : Text) : join ['\n'] [l] = l := by
  simp [join, List.intercalate]

def dropFinalEmpty (ls : List Text) : List Text :=
  if ls.getLast? = some [] then ls.dropLast else ls

theorem dropFinalEmpty_of_ne {ls : List Text} (h : ls.getLast? ≠ some []) :
    dropFinalEmpty ls = ls := if_neg h

theorem eq_dropFinalEmpty_or (ls : List Text) :
    ls = dropFinalEmpty ls ∨ ls = dropFinalEmpty ls ++ [[]] := by
  by_cases h : ls.getLast? = some []
  · right
    rw [dropFinalEmpty, if_pos h]
    exact (List.dropLast_append_getLast? [] (by simpa using h)).symm
  · exact .inl (dropFinalEmpty_of_ne h).symm

theorem dropFinalEmpty_cons_cons (l l' : Text) (ls : List Text) :
    dropFinalEmpty (l :: l' :: ls) = l :: dropFinalEmpty (l' :: ls) := by
  rw [dropFinalEmpty, dropFinalEmpty, List.getLast?_cons_cons]
  split <;> rfl

/-- Lines that are joined come apart again, but for an empty one at the end. -/
theorem lines_join {ls : List Text} (hls : ∀ l ∈ ls, IsLine l) :
    lines (join ['\n'] ls) = dropFinalEmpty ls := by
  induction ls with
  | nil => rfl
  | cons l ls ih =>
    have hl := hls l List.mem_cons_self
    cases ls with
    | nil =>
      rw [join_singleton]
      cases l with
      | nil => rfl
      | cons c l => rw [lines_of_notMem hl.1 (by simp)]; rfl
    | cons l' ls =>
      rw [join_cons_cons, lines_append_newline hl.1, hl.chomp,
        ih fun m hm => hls m (List.mem_cons_of_mem l hm), dropFinalEmpty_cons_cons]

/-- A line that is written before others is not lost from their text. -/
theorem count_le_count_lines_join {l : Text} (hl : IsLine l) (hne : l ≠ []) {ls : List Text}
    (hls : ∀ l ∈ ls, '\n' ∉ l) : ls.count l ≤ (lines (join ['\n'] ls)).count l := by
  induction ls with
  | nil => simp
  | cons m ls ih =>
    have hm := hls m List.mem_cons_self
    cases ls with
    | nil =>
      rw [join_singleton]
      cases m with
      | nil => simp [Ne.symm hne]
      | cons c m => rw [lines_of_notMem hm (by simp)]
    | cons m' ls =>
      have hrest := ih fun n hn => hls n (List.mem_cons_of_mem m hn)
      rw [join_cons_cons, lines_append_newline hm]
      by_cases h : m = l
      · subst h
        rw [hl.chomp, List.count_cons_self, List.count_cons_self]
        omega
      · rw [List.count_cons_of_ne h]
        exact hrest.trans (List.count_le_count_cons)

/-- Lines do not grow when they are joined, and an empty one at the end goes. -/
theorem length_unlines_lines_join_le {ls : List Text} (hls : ∀ l ∈ ls, '\n' ∉ l) :
    (unlines (lines (join ['\n'] ls))).length ≤ (unlines (dropFinalEmpty ls)).length := by
  induction ls with
  | nil => exact le_rfl
  | cons l ls ih =>
    have hl := hls l List.mem_cons_self
    cases ls with
    | nil =>
      rw [join_singleton]
      cases l with
      | nil => exact le_rfl
      | cons c l =>
        rw [lines_of_notMem hl (by simp)]
        exact le_rfl
    | cons l' ls =>
      have hrest := ih fun m hm => hls m (List.mem_cons_of_mem l hm)
      have hchomp : (chomp l).length ≤ l.length := by
        rw [chomp]
        split <;> simp
      rw [join_cons_cons, lines_append_newline hl, dropFinalEmpty_cons_cons]
      simp only [unlines, List.flatMap_cons, List.length_append] at hrest ⊢
      omega

theorem notMem_of_mem_consLine {c : Char} (hc : c ≠ '\n') {ls : List Text}
    (hls : ∀ l ∈ ls, '\n' ∉ l) : ∀ l ∈ consLine c ls, '\n' ∉ l := by
  cases ls with
  | nil =>
    intro l hl
    rw [consLine, List.mem_singleton] at hl
    simpa [hl] using Ne.symm hc
  | cons l' ls =>
    intro l hl
    rcases List.mem_cons.1 hl with rfl | hl
    · simpa using ⟨Ne.symm hc, hls l' List.mem_cons_self⟩
    · exact hls l (List.mem_cons_of_mem l' hl)

theorem notMem_of_mem_lines {t l : Text} (h : l ∈ lines t) : '\n' ∉ l := by
  induction t using lines.induct generalizing l with
  | case1 => simp [lines] at h
  | case2 t ih =>
    rw [lines] at h
    rcases List.mem_cons.1 h with rfl | h
    · simp
    · exact ih h
  | case3 t ih =>
    rw [lines] at h
    rcases List.mem_cons.1 h with rfl | h
    · simp
    · exact ih h
  | case4 c t hr hn ih =>
    have hlines : lines (c :: t) = consLine c (lines t) := by rw [lines] <;> assumption
    rw [hlines] at h
    exact notMem_of_mem_consLine hn (fun l hl => ih hl) l h

theorem mem_of_mem_consLine {c d : Char} {l : Text} {ls : List Text} (h : l ∈ consLine c ls)
    (hd : d ∈ l) : d = c ∨ ∃ l' ∈ ls, d ∈ l' := by
  cases ls with
  | nil =>
    rw [consLine, List.mem_singleton] at h
    subst h
    exact .inl (List.mem_singleton.1 hd)
  | cons l' ls =>
    rcases List.mem_cons.1 h with rfl | h
    · exact (List.mem_cons.1 hd).imp id fun hd => ⟨l', List.mem_cons_self, hd⟩
    · exact .inr ⟨l, List.mem_cons_of_mem l' h, hd⟩

theorem mem_of_mem_lines {t l : Text} {c : Char} (h : l ∈ lines t) (hc : c ∈ l) : c ∈ t := by
  induction t using lines.induct generalizing l with
  | case1 => simp [lines] at h
  | case2 t ih =>
    rw [lines] at h
    rcases List.mem_cons.1 h with rfl | h
    · cases hc
    · exact List.mem_cons_of_mem _ (List.mem_cons_of_mem _ (ih h hc))
  | case3 t ih =>
    rw [lines] at h
    rcases List.mem_cons.1 h with rfl | h
    · cases hc
    · exact List.mem_cons_of_mem _ (ih h hc)
  | case4 d t hr hn ih =>
    have hlines : lines (d :: t) = consLine d (lines t) := by rw [lines] <;> assumption
    rw [hlines] at h
    rcases mem_of_mem_consLine h hc with rfl | ⟨l', hl', hc⟩
    · exact List.mem_cons_self
    · exact List.mem_cons_of_mem _ (ih hl' hc)

/-- Without carriage returns in the text its lines come back when they are written. -/
theorem isLine_of_mem_lines {t l : Text} (ht : '\r' ∉ t) (h : l ∈ lines t) : IsLine l :=
  ⟨notMem_of_mem_lines h, fun hlast => ht (mem_of_mem_lines h (List.mem_of_getLast? hlast))⟩

end Text
end HeadJob
