import HeadJob.Proofs.Config.Assigned

/-!
Lists laid out on one line or over several.

The brackets of a list decide where it ends, and that is where its last bracket closes.  So how the list
is broken into lines makes no difference to what is read.
-/

namespace HeadJob

open Delimiter (brackets braces)

namespace Scan

/-- What is seen outside quotes before a character stands before it in the text. -/
theorem exists_of_outside_eq_append {s : Scan} {t x y : Text} {c : Char}
    (h : s.outside t = x ++ c :: y) :
    ∃ a b, t = a ++ c :: b ∧ s.outside a = x ∧ (s.run a).isOutside c = true := by
  induction t generalizing s x with
  | nil =>
    rw [outside] at h
    simp at h
  | cons e t ih =>
    rw [outside] at h
    split at h
    · next hs =>
      cases x with
      | nil =>
        injection h with hc _
        subst hc
        exact ⟨[], t, rfl, rfl, hs⟩
      | cons d x =>
        injection h with hd h
        obtain ⟨a, b, rfl, ha, hout⟩ := ih h
        refine ⟨e :: a, b, rfl, ?_, hout⟩
        rw [outside, if_pos hs, ha, hd]
    · next hs =>
      obtain ⟨a, b, rfl, ha, hout⟩ := ih h
      refine ⟨e :: a, b, rfl, ?_, hout⟩
      rw [outside, if_neg hs, ha]

end Scan

namespace Delimiter

theorem balance_nonneg_of_notMem {d : Delimiter} {t : Text} (h : d.closing ∉ t) :
    0 ≤ d.balance t := by
  induction t with
  | nil => exact Int.le_refl 0
  | cons c t ih =>
    simp only [List.mem_cons, not_or] at h
    have hrest := ih h.2
    rw [balance_cons, change]
    split
    · omega
    · rw [if_neg (Ne.symm h.1)]
      omega

/-- Characters that leave something open all along leave the depth that they add up to. -/
theorem depthAfter_of_inits {d : Delimiter} {n : Int} {t : Text}
    (h : ∀ p ∈ t.inits, 0 < n + d.balance p) :
    d.depthAfter n.toNat t = some (n + d.balance t).toNat := by
  have hstart := h [] (by simp)
  have hend := h t (by simp)
  rw [balance_nil] at hstart
  obtain ⟨k, rfl⟩ : ∃ k : Nat, n = k + 1 := ⟨n.toNat - 1, by omega⟩
  rw [show ((k : Int) + 1).toNat = k + 1 by omega, depthAfter_eq_some_iff]
  refine ⟨fun p hp => ?_, by omega⟩
  have hp' := h p hp
  omega

/-- The blanks that join lines do not change the depth. -/
theorem depthAfter_flatMap_blank {d : Delimiter} (hd : d ∈ [brackets, braces]) (n : Nat)
    (ls : List Text) :
    d.depthAfter n (ls.flatMap fun l => ' ' :: Scan.start.outside l) =
      d.depthAfter n (ls.flatMap Scan.start.outside) := by
  rw [← depthAfter_among, among_flatMap_blank hd, depthAfter_among]

end Delimiter

/-! ## Lists -/

namespace Spread

/-- The lines of a list: its first bracket opens on the first of them, its last one closes on the last,
and in between some bracket is open.  Brackets and braces in quotes count for nothing. -/
structure HoldsList (s : Spread) : Prop where
  opens : '[' ∈ Scan.start.outside s.first
  closes : ∃ l, s.more.getLast? = some l ∧ ']' ∈ Scan.start.outside l
  stays : ∀ p q, Scan.start.outside s.text = p ++ q → '[' ∈ p → ']' ∈ q → 0 < brackets.balance p
  balanced : s.text.IsBalanced

variable {s : Spread}

/-- A list is complete with its last line and not before. -/
theorem HoldsList.isRead (h : s.HoldsList) (hquotes : s.ClosesQuotes) : s.IsRead := by
  obtain ⟨first, more⟩ := s
  obtain ⟨last, hlast, hclose⟩ := h.closes
  obtain ⟨middle, rfl⟩ := List.getLast?_eq_some_iff.1 hlast
  obtain ⟨y, x, hreverse, hy⟩ := List.eq_append_cons_of_mem (List.mem_reverse.2 hclose)
  have hsplit : Scan.start.outside last = x.reverse ++ ']' :: y.reverse := by
    rw [← List.reverse_reverse (Scan.start.outside last), hreverse]
    simp
  obtain ⟨front, rest, rfl, hfront, hmark⟩ := Scan.exists_of_outside_eq_append hsplit
  let marks : Text := (middle ++ [front]).flatMap fun l => ' ' :: Scan.start.outside l
  have hmarks : Scan.start.outside (text ⟨first, middle ++ [front ++ ']' :: rest]⟩) =
      Scan.start.outside first ++ marks ++ ']' :: y.reverse := by
    rw [outside_text hquotes]
    simp [marks, hsplit, hfront]
  have hstays : ∀ p ∈ marks.inits, 0 < brackets.netChange first + brackets.balance p := by
    intro p hp
    obtain ⟨q, hq⟩ := (List.mem_inits _ _).1 hp
    have hpos := h.stays (Scan.start.outside first ++ p) (q ++ ']' :: y.reverse)
      (by rw [hmarks, ← hq]; simp) (List.mem_append_left p h.opens) (by simp)
    rwa [Delimiter.balance_append, ← Delimiter.netChange_eq_balance] at hpos
  have hkeeps : brackets.KeepsOpen first := ⟨by simpa using hstays [] (by simp), .inl rfl⟩
  -- what comes after the last bracket closes nothing, so the bracket closes all that is open
  have hone : brackets.netChange first + brackets.balance marks = 1 := by
    have hzero := (Text.isBalanced_iff _).1 h.balanced brackets List.mem_cons_self
    have hpos := hstays marks (by simp)
    have hrest : 0 ≤ brackets.balance y.reverse :=
      Delimiter.balance_nonneg_of_notMem fun hmem => hy (List.mem_reverse.1 hmem)
    rw [Delimiter.netChange_eq_balance, hmarks, Delimiter.balance_append, Delimiter.balance_append,
      Delimiter.balance_cons, show brackets.change ']' = -1 from rfl,
      ← Delimiter.netChange_eq_balance] at hzero
    omega
  have hdepth := Delimiter.depthAfter_of_inits hstays
  rw [hone, Delimiter.depthAfter_flatMap_blank List.mem_cons_self, List.flatMap_append,
    List.flatMap_singleton] at hdepth
  exact .over first middle brackets front rest hkeeps hdepth hmark

end Spread

/-! ## A written assignment -/

/-- The assignment of what stands on lines that follow one another. -/
def Assignment.written (line : Nat) (key : Text) (hkey : '=' ∉ key) (s : Spread) : Assignment where
  line := line
  front := key ++ [' ']
  back := ' ' :: s.first
  more := s.more.zipIdx (line + 1)
  notMem_front := by simpa using hkey

namespace Assignment

variable {key : Text} {s : Spread}

theorem opening_written (line : Nat) (hequals : '=' ∉ key) :
    (written line key hequals s).opening = Text.assignmentLine key s.first := by
  simp [written, opening, Text.assignmentLine]

theorem key_written (line : Nat) (hkey : key ≠ []) (htrim : key.trim = key) (hequals : '=' ∉ key) :
    (written line key hequals s).key = key := by
  show Text.trim (key ++ [' ']) = key
  rw [Text.trim, Text.trimStart_append (Text.trimStart_eq_self htrim) hkey,
    Text.trimEnd_append_of_isAllBlank (by decide), Text.trimEnd_eq_self htrim]

theorem spread_written (line : Nat) (hequals : '=' ∉ key) (htrim : s.first.trim = s.first) :
    (written line key hequals s).spread = s := by
  have hfirst : Text.trim (' ' :: s.first) = s.first :=
    (Text.trim_append_of_isAllBlank (s := [' ']) (by decide) s.first).trans htrim
  show Spread.mk (Text.trim (' ' :: s.first)) ((s.more.zipIdx (line + 1)).map Prod.fst) = s
  rw [hfirst, List.zipIdx_map_fst]

theorem lines_written (line : Nat) (hequals : '=' ∉ key)
    (hopening : (Text.assignmentLine key s.first).trim = Text.assignmentLine key s.first)
    (hmore : ∀ l ∈ s.more, l ≠ [] ∧ l.trim = l) :
    (written line key hequals s).lines =
      Text.numbered line (Text.assignmentLine key s.first :: s.more) := by
  have hne : Text.assignmentLine key s.first ≠ [] := by simp [Text.assignmentLine]
  rw [Text.numbered_of_trim (List.forall_mem_cons.2 ⟨⟨hne, hopening⟩, hmore⟩), List.zipIdx_cons,
    lines, opening_written]
  rfl

end Assignment

namespace Body

variable {key : Text} {s : Spread}

theorem contents_of_isRead (hkey : key ≠ []) (htrim : key.trim = key) (hunmarked : key.IsUnmarked)
    (hread : s.IsRead) (hlines : ∀ l ∈ s.lines, l ≠ [] ∧ l.trim = l) (line : Nat) :
    contents ⟨Text.assignmentLine key s.first :: s.more, line⟩ =
      ⟨.ofList [(key, s.text)], [], []⟩ := by
  have hequals : '=' ∉ key := fun hmem => hunmarked _ hmem (by simp)
  obtain ⟨hfirst, hfirst'⟩ := hlines s.first List.mem_cons_self
  have hspread := Assignment.spread_written line hequals hfirst'
  have hkey' : (Assignment.written line key hequals s).key = key :=
    Assignment.key_written line hkey htrim hequals
  have hcomplete : (Assignment.written line key hequals s).IsComplete :=
    { opens := by
        rw [Assignment.opening_written]
        exact hunmarked.opensSubBlock_assignmentLine s.first
      key := by rwa [hkey']
      value := by
        have hback := congrArg Spread.first hspread
        exact fun hnil => hfirst (hback.symm.trans hnil)
      read := by rwa [hspread] }
  have hopening : (Text.assignmentLine key s.first).trim = Text.assignmentLine key s.first :=
    Text.trim_append_append htrim hkey hfirst' hfirst _
  have hcontents := contents_of_assignments
    (b := ⟨Text.assignmentLine key s.first :: s.more, line⟩)
    (List.forall_mem_singleton.2 hcomplete)
    (by rw [List.flatMap_singleton, Assignment.lines_written line hequals hopening
      fun l hl => hlines l (List.mem_cons_of_mem _ hl)])
  rw [hcontents, List.map_singleton, Assignment.entry, hkey', ← Assignment.text_spread, hspread]
  rfl

/-- However a list is broken into lines, it is read as the value that its lines make together. -/
theorem contents_of_holdsList (hkey : key ≠ []) (htrim : key.trim = key)
    (hunmarked : key.IsUnmarked) (hlist : s.HoldsList)
    (hlines : ∀ l ∈ s.lines, l ≠ [] ∧ l.trim = l ∧ (Scan.start.run l).quote = none)
    (line line' : Nat) :
    contents ⟨Text.assignmentLine key s.first :: s.more, line⟩ =
        ⟨.ofList [(key, s.text)], [], []⟩ ∧
      contents ⟨[Text.assignmentLine key s.text], line'⟩ = ⟨.ofList [(key, s.text)], [], []⟩ := by
  have hquotes : s.ClosesQuotes := fun l hl => (hlines l (List.dropLast_subset _ hl)).2.2
  have htrimmed : ∀ l ∈ s.lines, l ≠ [] ∧ l.trim = l :=
    fun l hl => ⟨(hlines l hl).1, (hlines l hl).2.1⟩
  obtain ⟨hfirst, hfirst'⟩ := htrimmed s.first List.mem_cons_self
  have htext : s.text ≠ [] ∧ s.text.trim = s.text :=
    ⟨Spread.text_ne_nil hfirst,
      Spread.trim_text hfirst hfirst' fun l hl => htrimmed l (List.mem_cons_of_mem _ hl)⟩
  have hatOnce : Spread.IsRead ⟨s.text, []⟩ := .atOnce s.text hlist.balanced
  refine ⟨contents_of_isRead hkey htrim hunmarked (hlist.isRead hquotes) htrimmed line, ?_⟩
  have hline := contents_of_isRead hkey htrim hunmarked hatOnce
    (List.forall_mem_singleton.2 htext) line'
  rwa [show Spread.text ⟨s.text, []⟩ = s.text from List.append_nil _] at hline

theorem contents_of_holdsList_of_escape :
    ∃ s : Spread, s.lines = ["[[env: 'a]', value: \"x=\\\"[\"],".toList,
        "\x7bpath = c:\\".toList, "'a]'\x7d, [b]]".toList] ∧ s.HoldsList ∧
      contents ⟨Text.assignmentLine "pod".toList s.first :: s.more, 3⟩ =
          ⟨.ofList [("pod".toList, s.text)], [], []⟩ ∧
        contents ⟨[Text.assignmentLine "pod".toList s.text], 3⟩ =
          ⟨.ofList [("pod".toList, s.text)], [], []⟩ := by
  let s : Spread := ⟨"[[env: 'a]', value: \"x=\\\"[\"],".toList,
    ["\x7bpath = c:\\".toList, "'a]'\x7d, [b]]".toList]⟩
  have hstays : ∀ p ∈ (Scan.start.outside s.text).inits, '[' ∈ p →
      ']' ∈ (Scan.start.outside s.text).drop p.length → 0 < brackets.balance p := by decide
  have hlist : s.HoldsList :=
    { opens := by decide
      closes := ⟨_, rfl, by decide⟩
      stays := by
        intro p q hsplit hopen hclose
        refine hstays p ((List.mem_inits _ _).2 ⟨q, hsplit.symm⟩) hopen ?_
        rwa [hsplit, List.drop_left]
      balanced := by decide }
  have hunmarked : Text.IsUnmarked "pod".toList := by simp [Text.IsUnmarked]
  exact ⟨s, rfl, hlist,
    contents_of_holdsList (by decide) (by decide) hunmarked hlist (by decide) 3 3⟩

end Body
end HeadJob
