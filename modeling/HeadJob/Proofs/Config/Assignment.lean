import HeadJob.Config.Assignment
import HeadJob.Proofs.Config.Scan

/-!
The line that an entry of a block is written on.

How many blanks stand around the equals sign makes no difference to what the line says.  So it can be
told from the written line whether any line of the same key and value would be read as them.
-/

namespace HeadJob

namespace Scan

theorem isBare_append_of_notMem {s : Scan} {a : Text} (h : '/' ∉ a) (b : Text) :
    s.IsBare (a ++ b) ↔ (s.run a).IsBare b := by
  induction a generalizing s with
  | nil => rfl
  | cons c a ih =>
    simp only [List.mem_cons, not_or] at h
    rw [List.cons_append, isBare_cons, ih h.2, run_cons]
    exact ⟨And.right, fun hb => ⟨fun hc => h.1 hc.2.1.symm, hb⟩⟩

/-- An equals sign among blanks is the first mark to be found there, unless it is quoted. -/
theorem find?_outside_equals {b c : Text} (hb : Text.isAllBlank b = true)
    (hc : Text.isAllBlank c = true) (s : Scan) :
    (s.outside (b ++ '=' :: c)).find? (fun c => c = '{' || c = '=') =
      if s.quote = none then some '=' else none := by
  induction b generalizing s with
  | nil =>
    rw [List.nil_append, outside, isOutside_of_plain (by decide)]
    cases hq : s.quote with
    | none => rfl
    | some q =>
      have hnone : (s.next '=').outside c = [] := by
        rw [next_of_plain (by decide) (by decide), hq]
        generalize false = e
        induction c generalizing e with
        | nil => rfl
        | cons d c ih =>
          simp only [Text.isAllBlank, List.all_cons, Bool.and_eq_true] at hc
          rw [outside, isOutside_of_plain (ofMark?_eq_none_of_isBlank hc.1),
            next_of_isBlank hc.1]
          exact ih hc.2 false
      simp [hnone]
  | cons d b ih =>
    simp only [Text.isAllBlank, List.all_cons, Bool.and_eq_true] at hb
    have hd : (decide (d = '{') || decide (d = '=')) = false := by
      rw [Bool.or_eq_false_iff, decide_eq_false_iff_not, decide_eq_false_iff_not]
      exact ⟨ne_of_isBlank hb.1 (by decide), ne_of_isBlank hb.1 (by decide)⟩
    rw [List.cons_append, outside]
    split
    · rw [List.find?_cons_of_neg (by simpa using hd), ih hb.2, next_of_isBlank hb.1]
    · rw [ih hb.2, next_of_isBlank hb.1]

end Scan

namespace Text

structure IsKey (t : Text) : Prop where
  ne_nil : t ≠ []
  trim : trim t = t
  noBreak : '\n' ∉ t
  equals : '=' ∉ t

structure IsValue (t : Text) : Prop where
  ne_nil : t ≠ []
  trim : trim t = t
  noBreak : '\n' ∉ t

def assignmentLine (key value : Text) : Text := key ++ " = ".toList ++ value

variable {key value : Text}

theorem trim_assignmentLine (hk : key.IsKey) (hv : value.IsValue) :
    trim (assignmentLine key value) = assignmentLine key value :=
  trim_append_append hk.trim hk.ne_nil hv.trim hv.ne_nil _

theorem notMem_assignmentLine {c : Char} (hk : c ∉ key) (hv : c ∉ value)
    (hc : c ∉ " = ".toList) : c ∉ assignmentLine key value := by
  simp only [assignmentLine, List.mem_append, not_or]
  exact ⟨⟨hk, hc⟩, hv⟩

theorem isLine_assignmentLine (hk : key.IsKey) (hv : value.IsValue) :
    IsLine (assignmentLine key value) :=
  isLine_of_trim (trim_assignmentLine hk hv) (notMem_assignmentLine hk.noBreak hv.noBreak (by decide))

theorem assignment?_of_notMem {front : Text} (hfront : '=' ∉ front) (back : Text) :
    assignment? (front ++ '=' :: back) =
      if trim front = [] ∨ trim back = [] then none else some (trim front, trim back) := by
  have hpos : ∀ c ∈ front, decide (c ≠ '=') = true := by
    intro c hc
    rw [decide_eq_true_eq]
    rintro rfl
    exact hfront hc
  rw [assignment?, List.dropWhile_append_of_pos hpos, List.takeWhile_append_of_pos hpos,
    List.dropWhile_cons_of_neg (by simp), List.takeWhile_cons_of_neg (by simp), List.append_nil]

/-- A line that assigns does so at its first equals sign. -/
theorem exists_of_assignment? {t : Text} (h : assignment? t = some (key, value)) :
    ∃ front back, t = front ++ '=' :: back ∧ '=' ∉ front ∧ trim front = key ∧ trim back = value ∧
      key ≠ [] ∧ value ≠ [] := by
  have hmem : '=' ∈ t := by
    by_contra hnone
    have hdrop : t.dropWhile (fun c => decide (c ≠ '=')) = [] :=
      List.dropWhile_eq_nil_iff.2 fun c hc => decide_eq_true fun heq => hnone (heq ▸ hc)
    rw [assignment?, hdrop] at h
    cases h
  obtain ⟨front, back, rfl, hfront⟩ := List.eq_append_cons_of_mem hmem
  rw [assignment?_of_notMem hfront] at h
  split at h
  · cases h
  · next hne =>
    cases h
    rw [not_or] at hne
    exact ⟨front, back, rfl, hfront, rfl, rfl, hne⟩

theorem assignment?_append (hk : key ≠ []) (hk' : trim key = key) (hequals : '=' ∉ key)
    (hv : value ≠ []) (hv' : trim value = value) {b c : Text} (hb : isAllBlank b = true)
    (hc : isAllBlank c = true) :
    assignment? (key ++ b ++ '=' :: c ++ value) = some (key, value) := by
  have hfront : '=' ∉ key ++ b := by
    intro hmem
    rcases List.mem_append.1 hmem with hmem | hmem
    · exact hequals hmem
    · exact absurd (List.all_eq_true.1 hb _ hmem) (by decide)
  have hkey : trim (key ++ b) = key := by
    rw [trim, trimStart_append (trimStart_eq_self hk') hk, trimEnd_append_of_isAllBlank hb,
      trimEnd_eq_self hk']
  have hvalue : trim (c ++ value) = value := by rw [trim_append_of_isAllBlank hc, hv']
  rw [show key ++ b ++ '=' :: c ++ value = (key ++ b) ++ '=' :: (c ++ value) by simp,
    assignment?_of_notMem hfront, hkey, hvalue, if_neg (not_or.2 ⟨hk, hv⟩)]

theorem assignment?_assignmentLine (hk : key.IsKey) (hv : value.IsValue) :
    assignment? (assignmentLine key value) = some (key, value) := by
  have h := assignment?_append hk.ne_nil hk.trim hk.equals hv.ne_nil hv.trim
    (b := [' ']) (c := [' ']) (by decide) (by decide)
  simpa [assignmentLine] using h

/-- A trimmed line that assigns is its key and its value around an equals sign among blanks. -/
theorem exists_blanks_of_assignment? {t : Text} (ht : trim t = t)
    (h : assignment? t = some (key, value)) :
    key ≠ [] ∧ value ≠ [] ∧ trim key = key ∧ trim value = value ∧ '=' ∉ key ∧
      ∃ b c, isAllBlank b = true ∧ isAllBlank c = true ∧ t = key ++ b ++ '=' :: c ++ value := by
  obtain ⟨front, rest, hsplit, hequals, rfl, rfl, hkey, hvalue⟩ := exists_of_assignment? h
  refine ⟨hkey, hvalue, trim_trim _, trim_trim _,
    fun hmem => hequals ((trim_sublist front).subset hmem), ?_⟩
  -- nothing stands before the key or after the value, since the line is trimmed
  obtain ⟨a, b, ha, hb, hfront⟩ := exists_blanks_trim_blanks front
  obtain ⟨c, d, hc, hd, hrest⟩ := exists_blanks_trim_blanks rest
  have hall : t = a ++ (trim front ++ b ++ '=' :: c ++ trim rest) ++ d := by
    rw [hsplit]
    conv_lhs => rw [hfront, hrest]
    simp
  have hmid : trim (trim front ++ b ++ '=' :: c ++ trim rest) =
      trim front ++ b ++ '=' :: c ++ trim rest := by
    have := trim_append_append (trim_trim front) hkey (trim_trim rest) hvalue (b ++ '=' :: c)
    simpa using this
  refine ⟨b, c, hb, hc, ?_⟩
  rw [← hmid, ← trim_append_blanks ha hd, ← hall, ht]

/-! ## Lines that differ in blanks around the equals sign -/

theorem stripComment_append_equals {b c : Text} (hb : isAllBlank b = true)
    (hc : isAllBlank c = true) (key value : Text) :
    stripComment (key ++ b ++ '=' :: c ++ value) = key ++ b ++ '=' :: c ++ value ↔
      Scan.start.IsBare key ∧ (⟨(Scan.start.run key).quote, false⟩ : Scan).IsBare value := by
  have hslash : '/' ∉ b ++ '=' :: c := by
    intro h
    rcases List.mem_append.1 h with h | h
    · exact absurd (List.all_eq_true.1 hb _ h) (by decide)
    · rcases List.mem_cons.1 h with h | h
      · exact absurd h (by decide)
      · exact absurd (List.all_eq_true.1 hc _ h) (by decide)
  have hhead : (b ++ '=' :: c ++ value).head? ≠ some '/' := by
    intro h
    have hmem : '/' ∈ (b ++ '=' :: c).head? := by
      rw [List.append_assoc, List.head?_append] at h
      rw [List.head?_append]
      cases hhead : b.head? with
      | none => rw [hhead] at h; exact h
      | some d => rw [hhead] at h; exact h
    exact hslash (List.mem_of_mem_head? hmem)
  rw [show key ++ b ++ '=' :: c ++ value = key ++ (b ++ '=' :: c ++ value) by simp]
  show Scan.start.IsBare _ ↔ _
  rw [Scan.isBare_append hhead, Scan.isBare_append_of_notMem hslash, Scan.run_equals hb hc]

theorem opensSubBlock_append_equals {b c : Text} (hb : isAllBlank b = true)
    (hc : isAllBlank c = true) (key value : Text) :
    opensSubBlock (key ++ b ++ '=' :: c ++ value) =
      opensSubBlock (assignmentLine key value) := by
  have houtside : ∀ b c, isAllBlank b = true → isAllBlank c = true →
      opensSubBlock (key ++ b ++ '=' :: c ++ value) =
        ((((Scan.start.outside key).find? fun c => c = '{' || c = '=').or
          (if (Scan.start.run key).quote = none then some '=' else none)).or
          (((⟨(Scan.start.run key).quote, false⟩ : Scan).outside value).find?
            fun c => c = '{' || c = '=') == some '{') := by
    intro b c hb hc
    rw [show key ++ b ++ '=' :: c ++ value = key ++ (b ++ '=' :: c) ++ value by simp,
      opensSubBlock, Scan.outside_append, Scan.outside_append, Scan.run_append,
      Scan.run_equals hb hc, List.find?_append, List.find?_append,
      Scan.find?_outside_equals hb hc]
  rw [houtside b c hb hc, assignmentLine,
    show key ++ " = ".toList ++ value = key ++ [' '] ++ '=' :: [' '] ++ value by simp,
    houtside [' '] [' '] (by decide) (by decide)]

/-! ## Keys that no scan stops at -/

/-- No character of the text opens or closes a quote or a brace, ends a key, or is an escape. -/
def IsUnmarked (t : Text) : Prop := ∀ c ∈ t, c ∉ ['=', '\'', '"', '{', '}', '\\']

theorem IsUnmarked.run {t : Text} (h : t.IsUnmarked) : Scan.start.run t = Scan.start := by
  refine Scan.run_start_of_plain fun c hc => ?_
  have hplain := h c hc
  simp only [List.mem_cons, not_or] at hplain
  exact ⟨by rw [Quote.ofMark?, if_neg hplain.2.1, if_neg hplain.2.2.1], hplain.2.2.2.2.2.1⟩

theorem IsUnmarked.outside_assignmentLine (hk : key.IsUnmarked) (value : Text) :
    Scan.start.outside (assignmentLine key value) =
      Scan.start.outside key ++ (" = ".toList ++ Scan.start.outside value) := by
  rw [assignmentLine, List.append_assoc, Scan.outside_append, hk.run, Scan.outside_append]
  rfl

theorem IsUnmarked.opensSubBlock_assignmentLine (hk : key.IsUnmarked) (value : Text) :
    opensSubBlock (assignmentLine key value) = false := by
  have hnone : (Scan.start.outside key).find? (fun c => c = '{' || c = '=') = none := by
    rw [List.find?_eq_none]
    intro c hc h
    have hplain := hk c (Scan.outside_subset _ _ hc)
    rw [Bool.or_eq_true, decide_eq_true_eq, decide_eq_true_eq] at h
    rcases h with rfl | rfl <;> simp at hplain
  rw [opensSubBlock, hk.outside_assignmentLine, List.find?_append, hnone]
  rfl

end Text
end HeadJob
