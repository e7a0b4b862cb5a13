import HeadJob.Config.Storage
import HeadJob.Proofs.Config.Written
import HeadJob.Proofs.Volume.Entry

/-!
How a scan goes over the values that volumes are written into.

A claim and a path stand in quotes, where nothing counts.  A list that closes its quotes is scanned
after a volume is put in as it was before, but for blanks and for brackets that balance.
-/

namespace HeadJob

open Delimiter (brackets braces)
open Text (isBlank isAllBlank)

/-! ## Names in quotes -/

namespace Volume

theorem isNameChar_plain {c : Char} (h : isNameChar c = true) :
    Quote.ofMark? c = none ∧ c ≠ '\\' := by
  have hsingle : c ≠ '\'' := ne_of_isNameChar h (by decide)
  have hdouble : c ≠ '"' := ne_of_isNameChar h (by decide)
  exact ⟨by rw [Quote.ofMark?, if_neg hsingle, if_neg hdouble], ne_of_isNameChar h (by decide)⟩

/-- A character that makes no difference to a scan. -/
def isPassive (c : Char) : Bool := (Quote.ofMark? c).isNone && c != '\\' && c != '/'

theorem isPassive_iff {c : Char} :
    isPassive c = true ↔ Quote.ofMark? c = none ∧ c ≠ '\\' ∧ c ≠ '/' := by
  simp [isPassive, and_assoc]

/-- A scan over a name in single quotes, after a passive word, sees the word alone. -/
theorem scan_quoted {w t : Text} (hw : ∀ c ∈ w, isPassive c = true)
    (ht : ∀ c ∈ t, isNameChar c = true) :
    Scan.start.run (w ++ '\'' :: (t ++ ['\''])) = Scan.start ∧
      Scan.start.outside (w ++ '\'' :: (t ++ ['\''])) = w ∧
      Scan.start.IsBare (w ++ '\'' :: (t ++ ['\''])) := by
  have hmark : ∀ c ∈ w, Quote.ofMark? c = none := fun c hc => (isPassive_iff.1 (hw c hc)).1
  have hname : ∀ c ∈ t, Quote.ofMark? c = none := fun c hc => (isNameChar_plain (ht c hc)).1
  have hrun : Scan.start.run w = Scan.start :=
    Scan.run_start_of_plain fun c hc => ⟨hmark c hc, (isPassive_iff.1 (hw c hc)).2.1⟩
  have hnext : Scan.start.next '\'' = ⟨some .single, false⟩ := rfl
  have hquoted : (⟨some .single, false⟩ : Scan).run t = ⟨some .single, false⟩ :=
    Scan.run_of_plain (fun c hc => isNameChar_plain (ht c hc)) rfl
  refine ⟨?_, ?_, ?_⟩
  · rw [Scan.run_append, hrun, Scan.run_cons, hnext, Scan.run_append, hquoted]
    rfl
  · have hword : Scan.start.outside w = w := by
      rw [Scan.outside_of_ofMark?_eq_none hmark]
      rfl
    have hinside : (⟨some .single, false⟩ : Scan).outside t = [] := by
      rw [Scan.outside_of_ofMark?_eq_none hname]
      rfl
    rw [Scan.outside_append, hrun, hword, Scan.outside, if_neg (by decide), hnext,
      Scan.outside_append, hquoted, hinside]
    exact List.append_nil w
  · have hslash : '/' ∉ w := fun hc => (isPassive_iff.1 (hw _ hc)).2.2 rfl
    rw [Scan.isBare_append_of_notMem hslash, hrun, Scan.isBare_cons, hnext]
    refine ⟨fun h => absurd h.2.1 (by decide), (Scan.isBare_append (by decide)).2 ⟨?_, ?_⟩⟩
    · exact Scan.isBare_of_quote_ne_none hname (by simp)
    · rw [hquoted]
      exact rfl

variable {v : Volume}

theorem scan_entry (hv : v.IsPlain) :
    Scan.start.run v.entry = Scan.start ∧
      brackets.balance (Scan.start.outside v.entry) = 0 ∧
      braces.among (Scan.start.outside v.entry) = [] ∧
      Scan.start.IsBare v.entry := by
  have hentry : v.entry = (("volumeClaim".toList ++ [':']) ++ '\'' :: (v.claim ++ ['\''])) ++
      ((", mountPath".toList ++ [':']) ++ '\'' :: (v.path ++ ['\''])) := by
    rw [entry_eq]
    simp only [List.cons_append, List.append_assoc, List.nil_append]
  obtain ⟨hrun, houtside, hbare⟩ :=
    scan_quoted (w := "volumeClaim".toList ++ [':']) (List.all_eq_true.1 (by decide)) hv.1
  obtain ⟨hrun', houtside', hbare'⟩ :=
    scan_quoted (w := ", mountPath".toList ++ [':']) (List.all_eq_true.1 (by decide)) hv.2
  have hwords : Scan.start.outside v.entry =
      ("volumeClaim".toList ++ [':']) ++ (", mountPath".toList ++ [':']) := by
    rw [hentry, Scan.outside_append, houtside, hrun, houtside']
  rw [hwords, hentry]
  refine ⟨by rw [Scan.run_append, hrun, hrun'], by decide, by decide,
    (Scan.isBare_append ?_).2 ⟨hbare, by rw [hrun]; exact hbare'⟩⟩
  rw [List.append_assoc, List.head?_append, show ", mountPath".toList.head? = some ',' by decide]
  simp

end Volume

/-! ## Lists -/

namespace PodList

variable {t u : Text}

theorem isJoint_plain {c : Char} (h : isJoint c = true) :
    Quote.ofMark? c = none ∧ c ≠ '\\' ∧ c ≠ '/' := by
  rcases eq_of_isJoint h with rfl | rfl | rfl <;> decide

theorem next_of_isJoint {c : Char} (h : isJoint c = true) (s : Scan) : s.next c = ⟨s.quote, false⟩ :=
  Scan.next_of_plain (isJoint_plain h).1 (isJoint_plain h).2.1 s

theorem run_joint_blanks {c : Char} {b : Text} (hc : isJoint c = true) (hb : isAllBlank b = true)
    (s : Scan) : (s.next c).run b = s.next c := by
  refine Scan.run_of_plain (fun d hd => ?_) ?_
  · have hblank := List.all_eq_true.1 hb d hd
    exact ⟨Scan.ofMark?_eq_none_of_isBlank hblank, Scan.ne_of_isBlank hblank (by decide)⟩
  · rw [next_of_isJoint hc]

def solid (t : Text) : Text := t.filter (!isBlank ·)

theorem solid_append (a b : Text) : solid (a ++ b) = solid a ++ solid b := List.filter_append ..

theorem solid_of_isAllBlank {b : Text} (hb : isAllBlank b = true) : solid b = [] :=
  List.filter_eq_nil_iff.2 fun c hc => by simp [List.all_eq_true.1 hb c hc]

namespace Drawn

theorem head? (h : Drawn t u) : t.head? = u.head? := by
  cases h <;> rfl

theorem run (h : Drawn t u) (s : Scan) : s.run t = s.run u := by
  induction h generalizing s with
  | nil => rfl
  | cons c _ ih => exact ih (s.next c)
  | draw hc _ hb _ ih =>
    rw [Scan.run_cons, Scan.run_append, run_joint_blanks hc hb]
    exact ih _

theorem isBare (h : Drawn t u) {s : Scan} (ht : s.IsBare t) : s.IsBare u := by
  induction h generalizing s with
  | nil => exact ht
  | cons c h ih =>
    rw [Scan.isBare_cons] at ht ⊢
    rw [← h.head?]
    exact ⟨ht.1, ih ht.2⟩
  | draw hc hd hb _ ih =>
    refine Scan.isBare_cons.2 ⟨fun h => (isJoint_plain hc).2.2 h.2.1, ih ?_⟩
    have hrest := (Scan.isBare_cons.1 ht).2.of_append_right
    rwa [run_joint_blanks hc hb] at hrest

theorem solid_outside (h : Drawn t u) (s : Scan) : solid (s.outside t) = solid (s.outside u) := by
  induction h generalizing s with
  | nil => rfl
  | cons c _ ih =>
    rw [Scan.outside, Scan.outside]
    split
    · rw [← List.singleton_append, solid_append, ih, ← solid_append]
      rfl
    · exact ih _
  | @draw c d b t u hc hd hb _ ih =>
    have hblank : solid ((s.next c).outside b) = [] := by
      refine solid_of_isAllBlank (List.all_eq_true.2 fun e he => ?_)
      exact List.all_eq_true.1 hb e (Scan.outside_subset _ _ he)
    have hrest : solid ((s.next c).outside (b ++ d :: t)) = solid ((s.next c).outside (d :: u)) := by
      rw [Scan.outside_append, solid_append, hblank, run_joint_blanks hc hb, ih]
      rfl
    rw [Scan.outside, Scan.outside]
    split
    · rw [← List.singleton_append, solid_append, hrest, ← solid_append]
      rfl
    · exact hrest

end Drawn

theorem ofMark?_of_mem_replicate {c : Char} (hc : isJoint c = true) {n : Nat} :
    ∀ d ∈ List.replicate n c, Quote.ofMark? d = none := by
  intro d hd
  rw [List.eq_of_mem_replicate hd]
  exact (isJoint_plain hc).1

theorem solid_replicate {c : Char} (hc : isJoint c = true) (n : Nat) :
    solid (List.replicate n c) = List.replicate n c :=
  List.filter_eq_self.2 fun d hd => by
    rw [List.eq_of_mem_replicate hd, isBlank_of_isJoint hc]
    rfl

variable {literal : Text}

/-- A list that closes its quotes is scanned like its inside, but for blanks and outer brackets. -/
theorem scan_inside (hquote : (Scan.start.run literal).quote = none) :
    (Scan.start.run (inside literal)).quote = none ∧
      (Scan.start.IsBare literal → Scan.start.IsBare (inside literal)) ∧
      ∃ n, solid (Scan.start.outside literal) =
        List.replicate n '[' ++ solid (Scan.start.outside (inside literal)) ++
          List.replicate n ']' := by
  obtain ⟨hrun, hsolid, hbare⟩ := normalize_induction
    (Q := fun t u => Scan.start.run t = Scan.start.run u ∧
      solid (Scan.start.outside t) = solid (Scan.start.outside u) ∧
      (Scan.start.IsBare t → Scan.start.IsBare u))
    (fun h => ⟨h.run _, h.solid_outside _, h.isBare⟩)
    (fun h₁ h₂ => ⟨h₁.1.trans h₂.1, h₁.2.1.trans h₂.2.1, h₂.2.2 ∘ h₁.2.2⟩) literal
  obtain ⟨x, y, hx, hy, htrim⟩ := Text.exists_blanks_trim_blanks (normalize literal)
  obtain ⟨n, -, hinside⟩ := exists_inside literal
  have hblank : ∀ {b : Text} {s : Scan}, isAllBlank b = true → solid (s.outside b) = [] :=
    fun hb => solid_of_isAllBlank
      (List.all_eq_true.2 fun c hc => List.all_eq_true.1 hb c (Scan.outside_subset _ _ hc))
  have hopen : Scan.start.run (List.replicate n '[') = Scan.start :=
    Scan.run_start_of_plain fun c hc => by
      rw [List.eq_of_mem_replicate hc]
      decide
  have hclose := ofMark?_of_mem_replicate (c := ']') (by decide) (n := n)
  rw [hinside] at htrim
  -- the scan over the whole, part by part
  have hinsideQuote : (Scan.start.run (inside literal)).quote = none := by
    rw [hrun, htrim, Scan.run_append, Scan.quote_run_of_isAllBlank hy, Scan.run_append,
      Scan.run_start_of_isAllBlank hx, Scan.run_append, Scan.quote_run_of_ofMark?_eq_none hclose,
      Scan.run_append, hopen] at hquote
    exact hquote
  refine ⟨hinsideQuote, fun h => ?_, n, ?_⟩
  · have hnormal := hbare h
    rw [htrim] at hnormal
    have hpart := hnormal.of_append_left.of_append_right
    rw [Scan.run_start_of_isAllBlank hx] at hpart
    have hrest := hpart.of_append_left.of_append_right
    rwa [hopen] at hrest
  · rw [hsolid, htrim]
    simp only [Scan.outside_append, Scan.run_append, Scan.run_start_of_isAllBlank hx, hopen,
      solid_append, hblank hx, hblank hy, List.nil_append, List.append_nil]
    rw [Scan.outside_of_ofMark?_eq_none hclose, if_pos hinsideQuote,
      Scan.outside_of_ofMark?_eq_none (ofMark?_of_mem_replicate (by decide)),
      if_pos (show Scan.start.quote = none from rfl),
      solid_replicate (by decide), solid_replicate (by decide)]

theorem among_solid {d : Delimiter} (ho : isBlank d.opening = false) (hc : isBlank d.closing = false)
    (t : Text) : d.among (solid t) = d.among t := by
  rw [Delimiter.among, solid, List.filter_filter]
  refine List.filter_congr fun c _ => ?_
  by_cases h : c = d.opening ∨ c = d.closing
  · rcases h with rfl | rfl
    · simp [ho]
    · simp [hc]
  · rw [not_or] at h
    simp [h.1, h.2]

/-- A list literal without comments that leaves no quote and no bracket open. -/
structure IsClosed (literal : Text) : Prop where
  noBreak : '\n' ∉ literal
  bare : Scan.start.IsBare literal
  quote : (Scan.start.run literal).quote = none
  brackets : brackets.netChange literal = 0

variable {v : Volume}

theorem isPassive_separatorText : ∀ c ∈ separatorText, Volume.isPassive c = true :=
  List.all_eq_true.1 (by decide)

theorem ofMark?_of_isPassive {w : Text} (hw : ∀ c ∈ w, Volume.isPassive c = true) :
    ∀ c ∈ w, Quote.ofMark? c = none := fun c hc => (Volume.isPassive_iff.1 (hw c hc)).1

theorem notMem_inside {c : Char} (h : c ∉ literal) : c ∉ inside literal := by
  intro hmem
  obtain ⟨n, -, hinside⟩ := exists_inside literal
  have hnormal : c ∈ normalize literal := by
    refine (Text.trim_sublist _).subset ?_
    rw [hinside]
    exact List.mem_append_left _ (List.mem_append_right _ hmem)
  have hsub : (normalize literal).Sublist literal :=
    normalize_induction (Q := fun t u => u.Sublist t) Drawn.sublist (fun h₁ h₂ => h₂.trans h₁) literal
  exact h (hsub.subset hnormal)

theorem solid_outside_of_isAllBlank {b : Text} (hb : isAllBlank b = true) (s : Scan) :
    solid (s.outside b) = [] :=
  solid_of_isAllBlank
    (List.all_eq_true.2 fun c hc => List.all_eq_true.1 hb c (Scan.outside_subset _ _ hc))

/-- The inside of a list has the delimiters of the list, but for outer brackets. -/
theorem delimiters_inside (hquote : (Scan.start.run literal).quote = none) :
    brackets.balance (Scan.start.outside (inside literal)) = brackets.netChange literal ∧
      braces.among (Scan.start.outside (inside literal)) =
        braces.among (Scan.start.outside literal) := by
  obtain ⟨-, -, n, hsolid⟩ := scan_inside hquote
  constructor
  · have hbalance : brackets.balance (Scan.start.outside literal) =
        n * 1 + brackets.balance (Scan.start.outside (inside literal)) + n * -1 := by
      rw [← Delimiter.balance_among, ← among_solid (by decide) (by decide), hsolid,
        Delimiter.balance_among, Delimiter.balance_append, Delimiter.balance_append,
        Delimiter.balance_replicate, Delimiter.balance_replicate,
        ← Delimiter.balance_among brackets (solid _), among_solid (by decide) (by decide),
        Delimiter.balance_among]
      rfl
    rw [Delimiter.netChange_eq_balance, hbalance]
    omega
  · have hnone : ∀ c ∈ ['[', ']'], braces.among (List.replicate n c) = [] := by
      intro c hc
      refine Delimiter.among_of_notMem (fun h => ?_) (fun h => ?_) <;>
        · rw [← List.eq_of_mem_replicate h] at hc
          exact absurd hc (by decide)
    rw [← among_solid (by decide) (by decide) (Scan.start.outside literal), hsolid,
      Delimiter.among_append, Delimiter.among_append, hnone '[' (by simp), hnone ']' (by simp),
      among_solid (by decide) (by decide), List.nil_append, List.append_nil]

/-- A scan goes on from the front of a list that closes its quotes as from the start of a line. -/
theorem run_front (hquote : (Scan.start.run literal).quote = none) :
    Scan.start.run (front literal) = Scan.start := by
  unfold front
  split
  · rfl
  · rw [Scan.run_append]
    show (((Scan.start.run (inside literal)).next ']').next ',').next '[' = _
    rw [next_of_isJoint (c := ']') (by decide), (scan_inside hquote).1]
    rfl

/-- The front of a closed list has the delimiters of the list. -/
theorem scan_front (h : IsClosed literal) :
    Scan.start.run (front literal) = Scan.start ∧
      Scan.start.IsBare (front literal) ∧
      brackets.balance (Scan.start.outside (front literal)) = 0 ∧
      braces.among (Scan.start.outside (front literal)) =
        braces.among (Scan.start.outside literal) := by
  obtain ⟨hquote, hbare, -⟩ := scan_inside h.quote
  obtain ⟨hbalance, hamong⟩ := delimiters_inside h.quote
  rw [h.brackets] at hbalance
  refine ⟨run_front h.quote, ?_⟩
  unfold front
  split
  · next hblank =>
    refine ⟨rfl, rfl, ?_⟩
    rw [← hamong, ← among_solid (by decide) (by decide) (Scan.start.outside (inside literal)),
      solid_outside_of_isAllBlank hblank]
    rfl
  · have houtside : (Scan.start.run (inside literal)).outside separatorText = separatorText := by
      rw [Scan.outside_of_ofMark?_eq_none (ofMark?_of_isPassive isPassive_separatorText),
        if_pos hquote]
    refine ⟨(Scan.isBare_append (by decide)).2 ⟨hbare h.bare, ?_⟩, ?_, ?_⟩
    · exact Scan.isBare_of_notMem (by decide) _
    · rw [Scan.outside_append, houtside, Delimiter.balance_append, hbalance]
      rfl
    · rw [Scan.outside_append, houtside, Delimiter.among_append, hamong]
      exact List.append_nil _

theorem notMem_front {c : Char} (h : c ∉ literal) (hc : c ∉ separatorText) : c ∉ front literal := by
  unfold front
  split
  · exact List.not_mem_nil
  · exact fun hmem => (List.mem_append.1 hmem).elim (notMem_inside h) hc

theorem head?_entry (v : Volume) : v.entry.head? ≠ some '/' := by
  have hhead : v.entry.head? = some 'v' := rfl
  rw [hhead]
  decide

theorem newline_notMem_entry (hv : v.IsPlain) : '\n' ∉ v.entry :=
  Volume.notMem_entry (by decide) (fun hc => absurd (hv.1 _ hc) (by decide))
    fun hc => absurd (hv.2 _ hc) (by decide)

theorem trim_toLiteral_merge (h : (parse literal).holds v = false) :
    Text.trim ((parse literal).merge v).toLiteral = ((parse literal).merge v).toLiteral := by
  rw [toLiteral_merge h]
  exact Text.trim_append_append (by decide) (by decide) (by decide) (by decide) _

/-- A closed list is still closed after a volume is put in, and its braces are the same. -/
theorem isClosed_merge (h : IsClosed literal) (hv : v.IsPlain)
    (hholds : (parse literal).holds v = false) :
    IsClosed ((parse literal).merge v).toLiteral ∧
      braces.among (Scan.start.outside ((parse literal).merge v).toLiteral) =
        braces.among (Scan.start.outside literal) := by
  obtain ⟨hrun, hbare, hbalance, hamong⟩ := scan_front h
  obtain ⟨hrunEntry, hbalanceEntry, hamongEntry, hbareEntry⟩ := Volume.scan_entry hv
  have hopen : Scan.start.run ['[', '['] = Scan.start := rfl
  have houtside : Scan.start.outside ((parse literal).merge v).toLiteral =
      ['[', '['] ++ (Scan.start.outside (front literal) ++ Scan.start.outside v.entry) ++
        [']', ']'] := by
    simp only [toLiteral_merge hholds, Scan.outside_append, Scan.run_append, hopen, hrun, hrunEntry]
    rfl
  refine ⟨⟨?_, ?_, ?_, ?_⟩, ?_⟩
  · rw [toLiteral_merge hholds]
    simp only [List.mem_append, not_or]
    exact ⟨⟨by decide, notMem_front h.noBreak (by decide), newline_notMem_entry hv⟩, by decide⟩
  · rw [toLiteral_merge hholds, Scan.isBare_append (by decide),
      Scan.isBare_append_of_notMem (by decide), hopen, Scan.isBare_append (head?_entry v)]
    exact ⟨⟨hbare, by rw [hrun]; exact hbareEntry⟩, Scan.isBare_of_notMem (by decide) _⟩
  · simp only [toLiteral_merge hholds, Scan.run_append, hopen, hrun, hrunEntry]
    rfl
  · rw [Delimiter.netChange_eq_balance, houtside]
    simp only [Delimiter.balance_append, hbalance, hbalanceEntry]
    rfl
  · have hbrackets : braces.among ['[', '['] = [] ∧ braces.among [']', ']'] = [] := ⟨rfl, rfl⟩
    rw [houtside, ← hamong]
    simp only [Delimiter.among_append, hamongEntry, hbrackets, List.nil_append, List.append_nil]

end PodList
end HeadJob
