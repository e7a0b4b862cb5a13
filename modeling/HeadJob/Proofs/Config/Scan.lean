import Mathlib.Data.List.Infix
import HeadJob.Config.Quote
import HeadJob.Proofs.Text.Line

/-!
How a scan goes over a text that is put together from parts.

A scan carries over from one part to the next, blanks do not disturb it, and whether a text holds a
comment can be told part by part wherever no two slashes meet.
-/

namespace HeadJob
namespace Scan

def run (s : Scan) (t : Text) : Scan := t.foldl next s

@[simp] theorem run_nil (s : Scan) : s.run [] = s := rfl

@[simp] theorem run_cons (s : Scan) (c : Char) (t : Text) : s.run (c :: t) = (s.next c).run t := rfl

theorem run_append (s : Scan) (a b : Text) : s.run (a ++ b) = (s.run a).run b :=
  List.foldl_append

theorem outside_append (s : Scan) (a b : Text) :
    s.outside (a ++ b) = s.outside a ++ (s.run a).outside b := by
  induction a generalizing s with
  | nil => rfl
  | cons c a ih =>
    simp only [List.cons_append, outside, run_cons, ih]
    split <;> rfl

/-! ## Characters that are no marks of quotes -/

theorem quoteAfter_of_ofMark?_eq_none {c : Char} (h : Quote.ofMark? c = none) (s : Scan) :
    s.quoteAfter c = s.quote := by
  unfold quoteAfter
  split
  · rfl
  · split
    · next hq => rw [h, hq]
    · next q hq =>
      rw [if_neg, hq]
      intro hc
      rw [Quote.ofMark?_eq_some_iff.2 hc] at h
      cases h

/-- A character that is neither a mark nor a backslash leaves a scan in its quote. -/
theorem next_of_plain {c : Char} (h : Quote.ofMark? c = none) (hb : c ≠ '\\') (s : Scan) :
    s.next c = ⟨s.quote, false⟩ := by
  simp [next, quoteAfter_of_ofMark?_eq_none h, hb]

/-- A text without marks and backslashes leaves a scan where it was, unless an escape is open. -/
theorem run_of_plain {t : Text} (h : ∀ c ∈ t, Quote.ofMark? c = none ∧ c ≠ '\\') {s : Scan}
    (hs : s.escaped = false) : s.run t = s := by
  induction t generalizing s with
  | nil => rfl
  | cons c t ih =>
    obtain ⟨hmark, hbackslash⟩ := h c List.mem_cons_self
    rw [run_cons, next_of_plain hmark hbackslash, ih (fun d hd => h d (List.mem_cons_of_mem c hd)) rfl]
    cases s
    cases hs
    rfl

theorem run_start_of_plain {t : Text} (h : ∀ c ∈ t, Quote.ofMark? c = none ∧ c ≠ '\\') :
    start.run t = start := run_of_plain h rfl

theorem quote_run_of_ofMark?_eq_none {t : Text} (h : ∀ c ∈ t, Quote.ofMark? c = none) (s : Scan) :
    (s.run t).quote = s.quote := by
  induction t generalizing s with
  | nil => rfl
  | cons c t ih =>
    rw [run_cons, ih fun d hd => h d (List.mem_cons_of_mem c hd)]
    exact quoteAfter_of_ofMark?_eq_none (h c List.mem_cons_self) s

theorem isOutside_of_plain {c : Char} (h : Quote.ofMark? c = none) (s : Scan) :
    s.isOutside c = s.quote.isNone := by
  rw [isOutside, quoteAfter_of_ofMark?_eq_none h, Bool.and_self]

/-- Outside quotes a text without marks is seen as it is, and in quotes nothing of it. -/
theorem outside_of_ofMark?_eq_none {t : Text} (h : ∀ c ∈ t, Quote.ofMark? c = none) (s : Scan) :
    s.outside t = if s.quote = none then t else [] := by
  induction t generalizing s with
  | nil => simp [outside]
  | cons c t ih =>
    have hc := h c List.mem_cons_self
    have hrest := ih (fun d hd => h d (List.mem_cons_of_mem c hd)) (s.next c)
    rw [show (s.next c).quote = s.quote from quoteAfter_of_ofMark?_eq_none hc s] at hrest
    rw [outside, isOutside_of_plain hc, hrest]
    cases s.quote <;> simp

theorem ofMark?_eq_none_of_isBlank {c : Char} (h : Text.isBlank c = true) :
    Quote.ofMark? c = none := by
  cases hq : Quote.ofMark? c with
  | none => rfl
  | some q =>
    rw [Quote.ofMark?_eq_some_iff.1 hq] at h
    cases q <;> exact absurd h (by decide)

theorem ne_of_isBlank {c d : Char} (h : Text.isBlank c = true) (hd : Text.isBlank d = false) :
    c ≠ d := by
  rintro rfl
  rw [h] at hd
  cases hd

theorem next_of_isBlank {c : Char} (h : Text.isBlank c = true) (s : Scan) :
    s.next c = ⟨s.quote, false⟩ :=
  next_of_plain (ofMark?_eq_none_of_isBlank h) (ne_of_isBlank h (by decide)) s

theorem quote_run_of_isAllBlank {b : Text} (h : Text.isAllBlank b = true) (s : Scan) :
    (s.run b).quote = s.quote := by
  induction b generalizing s with
  | nil => rfl
  | cons c b ih =>
    simp only [Text.isAllBlank, List.all_cons, Bool.and_eq_true] at h
    rw [run_cons, next_of_isBlank h.1, ih h.2]

theorem run_start_of_isAllBlank {b : Text} (h : Text.isAllBlank b = true) : start.run b = start := by
  induction b with
  | nil => rfl
  | cons c b ih =>
    simp only [Text.isAllBlank, List.all_cons, Bool.and_eq_true] at h
    rw [run_cons, next_of_isBlank h.1]
    exact ih h.2

/-- An equals sign among blanks leaves a scan in its quote and ends any escape. -/
theorem run_equals {b c : Text} (hb : Text.isAllBlank b = true) (hc : Text.isAllBlank c = true)
    (s : Scan) : s.run (b ++ '=' :: c) = ⟨s.quote, false⟩ := by
  rw [run_append, run_cons, next_of_plain (by decide) (by decide), quote_run_of_isAllBlank hb]
  generalize s.quote = q
  induction c with
  | nil => rfl
  | cons e c ih =>
    simp only [Text.isAllBlank, List.all_cons, Bool.and_eq_true] at hc
    rw [run_cons, next_of_isBlank hc.1]
    exact ih hc.2

theorem outside_subset (s : Scan) (t : Text) : s.outside t ⊆ t := by
  induction t generalizing s with
  | nil => exact List.Subset.refl []
  | cons c t ih =>
    rw [outside]
    split
    · exact List.cons_subset_cons c (ih _)
    · exact List.subset_cons_of_subset c (ih _)

/-! ## Comments -/

def IsBare (s : Scan) (t : Text) : Prop := (s.beforeComment t).1 = t

instance (s : Scan) (t : Text) : Decidable (s.IsBare t) :=
  inferInstanceAs (Decidable (_ = _))

theorem isBare_nil (s : Scan) : s.IsBare [] := rfl

theorem isBare_cons {s : Scan} {c : Char} {t : Text} :
    s.IsBare (c :: t) ↔
      ¬(s.quote = none ∧ c = '/' ∧ t.head? = some '/') ∧ (s.next c).IsBare t := by
  rw [IsBare, beforeComment]
  split
  · next h => simp [h]
  · next h => simp [h, IsBare]

theorem IsBare.of_append_left {s : Scan} {a b : Text} (h : s.IsBare (a ++ b)) : s.IsBare a := by
  induction a generalizing s with
  | nil => exact isBare_nil s
  | cons c a ih =>
    rw [List.cons_append, isBare_cons] at h
    refine isBare_cons.2 ⟨fun ⟨hq, hc, ha⟩ => h.1 ⟨hq, hc, ?_⟩, ih h.2⟩
    rw [List.head?_append, ha]
    rfl

theorem IsBare.of_append_right {s : Scan} {a b : Text} (h : s.IsBare (a ++ b)) :
    (s.run a).IsBare b := by
  induction a generalizing s with
  | nil => exact h
  | cons c a ih =>
    rw [List.cons_append, isBare_cons] at h
    exact ih h.2

/-- Comments are told part by part where the second part begins with no slash. -/
theorem isBare_append {s : Scan} {a b : Text} (hb : b.head? ≠ some '/') :
    s.IsBare (a ++ b) ↔ s.IsBare a ∧ (s.run a).IsBare b := by
  refine ⟨fun h => ⟨h.of_append_left, h.of_append_right⟩, fun h => ?_⟩
  induction a generalizing s with
  | nil => exact h.2
  | cons c a ih =>
    rw [isBare_cons] at h
    rw [List.cons_append, isBare_cons]
    refine ⟨fun ⟨hq, hc, hhead⟩ => ?_, ih ⟨h.1.2, h.2⟩⟩
    cases a with
    | nil => exact hb hhead
    | cons d a => exact h.1.1 ⟨hq, hc, hhead⟩

theorem isBare_of_notMem {t : Text} (h : '/' ∉ t) (s : Scan) : s.IsBare t := by
  induction t generalizing s with
  | nil => exact isBare_nil s
  | cons c t ih =>
    simp only [List.mem_cons, not_or] at h
    exact isBare_cons.2 ⟨fun hc => h.1 hc.2.1.symm, ih h.2 _⟩

theorem isBare_beforeComment (s : Scan) (t : Text) : s.IsBare (s.beforeComment t).1 := by
  induction t generalizing s with
  | nil => exact isBare_nil s
  | cons c t ih =>
    rw [beforeComment]
    split
    · exact isBare_nil s
    · next h =>
      refine isBare_cons.2 ⟨fun hs => h ⟨hs.1, hs.2.1, ?_⟩, ih _⟩
      obtain ⟨r, hr⟩ := beforeComment_isPrefix (s.next c) t
      rw [← hr, List.head?_append, hs.2.2]
      rfl

/-- A text holds no comment if slashes meet in quotes only. -/
theorem isBare_iff {s : Scan} {t : Text} :
    s.IsBare t ↔ ∀ a b, t = a ++ '/' :: '/' :: b → (s.run a).quote ≠ none := by
  induction t generalizing s with
  | nil =>
    refine ⟨fun _ a b h => ?_, fun _ => isBare_nil s⟩
    simp at h
  | cons c t ih =>
    rw [isBare_cons, ih]
    constructor
    · rintro ⟨hc, h⟩ a b heq hq
      cases a with
      | nil =>
        injection heq with h1 h2
        exact hc ⟨hq, h1, by rw [h2]; rfl⟩
      | cons d a =>
        injection heq with h1 h2
        subst h1
        exact h a b h2 hq
    · refine fun h => ⟨fun ⟨hq, hc, hhead⟩ => ?_, fun a b heq => h (c :: a) b (by rw [heq]; rfl)⟩
      obtain ⟨t', rfl⟩ := List.head?_eq_some_iff.1 hhead
      exact h [] t' (by rw [hc]; rfl) hq

theorem isBare_of_quote_ne_none {t : Text} (h : ∀ c ∈ t, Quote.ofMark? c = none) {s : Scan}
    (hs : s.quote ≠ none) : s.IsBare t := by
  refine isBare_iff.2 fun a b hab => ?_
  rw [quote_run_of_ofMark?_eq_none fun c hc => h c (by rw [hab]; exact List.mem_append_left _ hc)]
  exact hs

/-- The whole text is kept, or a comment follows what is kept, outside quotes. -/
theorem beforeComment_cases (s : Scan) (t : Text) :
    (s.beforeComment t).1 = t ∨
      ∃ r, t = (s.beforeComment t).1 ++ '/' :: '/' :: r ∧
        (s.run (s.beforeComment t).1).quote = none := by
  induction t generalizing s with
  | nil => exact .inl rfl
  | cons c t ih =>
    rw [beforeComment]
    split
    · next h =>
      obtain ⟨t', rfl⟩ := List.head?_eq_some_iff.1 h.2.2
      exact .inr ⟨t', by rw [h.2.1]; rfl, h.1⟩
    · rcases ih (s.next c) with h | ⟨r, h, hquote⟩
      · exact .inl (congrArg (c :: ·) h)
      · exact .inr ⟨r, congrArg (c :: ·) h, hquote⟩

/-- The quote told with what is kept is the one that is open at its end. -/
theorem quote_beforeComment (s : Scan) (t : Text) :
    (s.beforeComment t).2 = (s.run (s.beforeComment t).1).quote := by
  induction t generalizing s with
  | nil => rfl
  | cons c t ih =>
    rw [beforeComment]
    split
    · next h => exact h.1.symm
    · exact ih (s.next c)

theorem quote_beforeComment_of_isBare {s : Scan} {t : Text} (h : s.IsBare t) :
    (s.beforeComment t).2 = (s.run t).quote := by
  rw [quote_beforeComment, h]

/-- A comment is found part by part, unless it begins with the last character of the first part. -/
theorem beforeComment_append {s : Scan} {a b : Text}
    (h : a.getLast? ≠ some '/' ∨ b.head? ≠ some '/') :
    (s.beforeComment (a ++ b)).1 =
      if s.IsBare a then a ++ ((s.run a).beforeComment b).1 else (s.beforeComment a).1 := by
  induction a generalizing s with
  | nil => rw [if_pos (isBare_nil s)]; rfl
  | cons c a ih =>
    have hhead : (s.quote = none ∧ c = '/' ∧ (a ++ b).head? = some '/') ↔
        (s.quote = none ∧ c = '/' ∧ a.head? = some '/') := by
      cases a with
      | nil =>
        refine ⟨fun ⟨_, hc, hb⟩ => ?_, fun ⟨_, _, ha⟩ => nomatch ha⟩
        exact (h.elim (fun ha => ha (by rw [hc]; rfl)) fun hb' => hb' hb).elim
      | cons d a => exact Iff.rfl
    have hrest : a.getLast? ≠ some '/' ∨ b.head? ≠ some '/' := by
      cases a with
      | nil => exact .inl (by simp)
      | cons d a => rwa [List.getLast?_cons_cons] at h
    rw [List.cons_append, beforeComment, beforeComment]
    simp only [hhead, isBare_cons, ih hrest]
    split
    · next hc => rw [if_neg fun hbare => hbare.1 hc]
    · next hc =>
      by_cases hbare : (s.next c).IsBare a
      · rw [if_pos hbare, if_pos ⟨hc, hbare⟩]
        rfl
      · rw [if_neg hbare, if_neg fun h => hbare h.2]

/-- What stands before a comment can be told from any place in it. -/
theorem beforeComment_drop {s : Scan} {t : Text} {k : Nat} (h : k ≤ (s.beforeComment t).1.length) :
    ((s.run (t.take k)).beforeComment (t.drop k)).1 = (s.beforeComment t).1.drop k := by
  induction t generalizing s k with
  | nil => simp [beforeComment]
  | cons c t ih =>
    cases k with
    | zero => rfl
    | succ k =>
      rw [beforeComment] at h ⊢
      split at h
      · exact absurd h (by simp)
      · next hc =>
        rw [if_neg hc]
        exact ih (Nat.le_of_succ_le_succ h)

end Scan

namespace Text

theorem stripComment_stripComment (t : Text) : stripComment (stripComment t) = stripComment t :=
  Scan.isBare_beforeComment Scan.start t

theorem stripComment_sublist (t : Text) : (stripComment t).Sublist t :=
  (Scan.beforeComment_isPrefix Scan.start t).sublist

theorem stripComment_append_of_isAllBlank {b : Text} (h : isAllBlank b = true) (t : Text) :
    stripComment (b ++ t) = b ++ stripComment t := by
  induction b with
  | nil => rfl
  | cons c b ih =>
    simp only [isAllBlank, List.all_cons, Bool.and_eq_true] at h
    have hc : c ≠ '/' := Scan.ne_of_isBlank h.1 (by decide)
    rw [List.cons_append, stripComment, Scan.beforeComment, if_neg fun hs => hc hs.2.1,
      Scan.next_of_isBlank h.1]
    exact congrArg (c :: ·) (ih h.2)

/-- Blanks at the end of a line go with its comment, or stay. -/
theorem stripComment_append_blanks {b : Text} (hb : isAllBlank b = true) (t : Text) :
    stripComment (t ++ b) = stripComment t ∨ stripComment (t ++ b) = stripComment t ++ b := by
  have hslash : '/' ∉ b := fun h => absurd (List.all_eq_true.1 hb _ h) (by decide)
  have hscan : ∀ s : Scan, (s.beforeComment (t ++ b)).1 = (s.beforeComment t).1 ∨
      (s.beforeComment (t ++ b)).1 = (s.beforeComment t).1 ++ b := by
    induction t with
    | nil => exact fun s => .inr (Scan.isBare_of_notMem hslash s)
    | cons c t ih =>
      intro s
      have hhead : (t ++ b).head? = some '/' ↔ t.head? = some '/' := by
        cases t with
        | nil =>
          refine ⟨fun h => absurd (List.mem_of_mem_head? h) hslash, fun h => ?_⟩
          cases h
        | cons d t => exact Iff.rfl
      rw [List.cons_append, Scan.beforeComment, Scan.beforeComment]
      simp only [hhead]
      split
      · exact .inl rfl
      · exact (ih (s.next c)).imp (congrArg (c :: ·)) (congrArg (c :: ·))
  exact hscan Scan.start

theorem stripComment_chomp (t : Text) :
    stripComment t = stripComment (chomp t) ∨
      stripComment t = stripComment (chomp t) ++ ['\r'] := by
  rcases eq_chomp_or t with h | h
  · exact .inl (congrArg stripComment h)
  · have hend := stripComment_append_blanks (b := ['\r']) (by decide) (chomp t)
    rwa [← h] at hend

theorem trim_stripComment_chomp (t : Text) : trim (stripComment (chomp t)) = trim (stripComment t) := by
  rcases stripComment_chomp t with h | h
  · rw [h]
  · rw [h]
    exact (trim_append_blanks (a := []) rfl (by decide) _).symm

theorem stripComment_trim {t : Text} (h : stripComment t = t) : stripComment (trim t) = trim t := by
  obtain ⟨a, b, ha, -, ht⟩ := exists_blanks_trim_blanks t
  have hbare : Scan.start.IsBare (a ++ trim t ++ b) := by
    rw [← ht]
    exact h
  have hrun := hbare.of_append_left.of_append_right
  rwa [Scan.run_start_of_isAllBlank ha] at hrun

/-- Where a scan is as at the start of a line, the line can be cut before its comment is. -/
theorem stripComment_drop {t : Text} {k : Nat} (hk : k ≤ t.stripComment.length)
    (hrun : Scan.start.run (t.stripComment.take k) = Scan.start) :
    stripComment (t.drop k) = t.stripComment.drop k := by
  have htake : t.take k = t.stripComment.take k := by
    obtain ⟨r, hr⟩ : t.stripComment <+: t := Scan.beforeComment_isPrefix Scan.start t
    conv_lhs => rw [← hr]
    exact List.take_append_of_le_length hk
  have hdrop := Scan.beforeComment_drop hk
  rw [htake, hrun] at hdrop
  exact hdrop

end Text

/-! ## Delimiters -/

namespace Delimiter

/-- How much deeper the nesting is after characters that stand outside quotes. -/
def balance (d : Delimiter) (marks : Text) : Int := marks.foldr (fun c n => d.change c + n) 0

theorem netChange_eq_balance (d : Delimiter) (t : Text) :
    d.netChange t = d.balance (Scan.start.outside t) := rfl

@[simp] theorem balance_nil (d : Delimiter) : d.balance [] = 0 := rfl

@[simp] theorem balance_cons (d : Delimiter) (c : Char) (t : Text) :
    d.balance (c :: t) = d.change c + d.balance t := rfl

theorem balance_append (d : Delimiter) (a b : Text) :
    d.balance (a ++ b) = d.balance a + d.balance b := by
  induction a with
  | nil => simp
  | cons c a ih => rw [List.cons_append, balance_cons, balance_cons, ih, Int.add_assoc]

theorem balance_replicate (d : Delimiter) (n : Nat) (c : Char) :
    d.balance (List.replicate n c) = n * d.change c := by
  induction n with
  | zero => simp
  | succ n ih =>
    rw [List.replicate_succ, balance_cons, ih, Int.natCast_succ, Int.add_mul, Int.one_mul,
      Int.add_comm]

theorem balance_of_notMem {d : Delimiter} {t : Text} (ho : d.opening ∉ t) (hc : d.closing ∉ t) :
    d.balance t = 0 := by
  induction t with
  | nil => rfl
  | cons c t ih =>
    simp only [List.mem_cons, not_or] at ho hc
    rw [balance_cons, change, if_neg (Ne.symm ho.1), if_neg (Ne.symm hc.1), ih ho.2 hc.2]
    rfl

/-- How deep the nesting is after characters that stand outside quotes, unless one of them closes
the outermost delimiter. -/
def depthAfter (d : Delimiter) : Nat → Text → Option Nat
  | n, [] => some n
  | n, c :: t =>
    if c = d.opening then depthAfter d (n + 1) t
    else if c = d.closing then if n ≤ 1 then none else depthAfter d (n - 1) t
    else depthAfter d n t

theorem depthAfter_append (d : Delimiter) (n : Nat) (a b : Text) :
    d.depthAfter n (a ++ b) = (d.depthAfter n a).bind fun m => d.depthAfter m b := by
  induction a generalizing n with
  | nil => rfl
  | cons c a ih =>
    simp only [List.cons_append, depthAfter]
    split
    · exact ih _
    · split
      · split
        · rfl
        · exact ih _
      · exact ih _

/-- No beginning of the characters closes more than it opens. -/
def NeverNegative (d : Delimiter) (t : Text) : Prop := ∀ p ∈ t.inits, 0 ≤ d.balance p

instance (d : Delimiter) (t : Text) : Decidable (d.NeverNegative t) :=
  inferInstanceAs (Decidable (∀ p ∈ t.inits, 0 ≤ d.balance p))

/-- The outermost delimiter stays open as long as no more are closed than were opened after it. -/
theorem depthAfter_eq_some_iff {d : Delimiter} {n m : Nat} {t : Text} :
    d.depthAfter (n + 1) t = some m ↔
      (∀ p ∈ t.inits, 0 ≤ (n : Int) + d.balance p) ∧ (m : Int) = n + 1 + d.balance t := by
  induction t generalizing n with
  | nil =>
    simp only [depthAfter, Option.some_inj, List.inits, List.forall_mem_singleton, balance_nil]
    omega
  | cons c t ih =>
    rw [depthAfter, List.inits_cons, List.forall_mem_cons, List.forall_mem_map]
    simp only [balance_cons, balance_nil, change]
    split
    · rw [ih]
      refine and_congr ⟨fun h => ⟨by omega, fun p hp => ?_⟩, fun h p hp => ?_⟩ (by omega)
      · have := h p hp
        omega
      · have := h.2 p hp
        omega
    · split
      · split
        · have hn : n = 0 := by omega
          subst hn
          refine ⟨(fun h => nomatch h), fun h => ?_⟩
          have := h.1.2 [] (by simp)
          simp at this
        · obtain ⟨k, rfl⟩ : ∃ k, n = k + 1 := ⟨n - 1, by omega⟩
          rw [Nat.add_sub_cancel, ih]
          refine and_congr ⟨fun h => ⟨by omega, fun p hp => ?_⟩, fun h p hp => ?_⟩ (by omega)
          · have := h p hp
            omega
          · have := h.2 p hp
            omega
      · rw [ih]
        refine and_congr ⟨fun h => ⟨by omega, fun p hp => ?_⟩, fun h p hp => ?_⟩ (by omega)
        · have := h p hp
          omega
        · have := h.2 p hp
          omega

/-- From one delimiter on, characters that never close it leave as many open as they add. -/
theorem depthAfter_one_eq_some_iff {d : Delimiter} {m : Nat} {t : Text} :
    d.depthAfter 1 t = some m ↔ d.NeverNegative t ∧ (m : Int) = 1 + d.balance t := by
  simpa [NeverNegative] using depthAfter_eq_some_iff (d := d) (n := 0) (m := m) (t := t)

theorem depthAfter_pos {d : Delimiter} {n m : Nat} {t : Text} (hn : 0 < n)
    (h : d.depthAfter n t = some m) : 0 < m := by
  obtain ⟨k, rfl⟩ : ∃ k, n = k + 1 := ⟨n - 1, by omega⟩
  obtain ⟨hstays, hm⟩ := depthAfter_eq_some_iff.1 h
  have hall := hstays t (by simp)
  omega

theorem depthAfter_of_notMem {d : Delimiter} {t : Text} (ho : d.opening ∉ t) (hc : d.closing ∉ t)
    (n : Nat) : d.depthAfter n t = some n := by
  induction t with
  | nil => rfl
  | cons c t ih =>
    simp only [List.mem_cons, not_or] at ho hc
    rw [depthAfter, if_neg (Ne.symm ho.1), if_neg (Ne.symm hc.1), ih ho.2 hc.2]

def among (d : Delimiter) (t : Text) : Text := t.filter fun c => c = d.opening || c = d.closing

theorem among_append (d : Delimiter) (a b : Text) : d.among (a ++ b) = d.among a ++ d.among b :=
  List.filter_append ..

theorem among_of_notMem {d : Delimiter} {t : Text} (ho : d.opening ∉ t) (hc : d.closing ∉ t) :
    d.among t = [] := by
  refine List.filter_eq_nil_iff.2 fun c hmem h => ?_
  rw [Bool.or_eq_true, decide_eq_true_eq, decide_eq_true_eq] at h
  rcases h with rfl | rfl
  · exact ho hmem
  · exact hc hmem

theorem balance_among (d : Delimiter) (t : Text) : d.balance (d.among t) = d.balance t := by
  induction t with
  | nil => rfl
  | cons c t ih =>
    rw [among, List.filter_cons]
    split
    · rw [balance_cons, balance_cons]
      exact congrArg _ ih
    · next h =>
      simp only [Bool.or_eq_true, decide_eq_true_eq, not_or] at h
      rw [balance_cons, change, if_neg h.1, if_neg h.2, Int.zero_add]
      exact ih

theorem depthAfter_among (d : Delimiter) (n : Nat) (t : Text) :
    d.depthAfter n (d.among t) = d.depthAfter n t := by
  induction t generalizing n with
  | nil => rfl
  | cons c t ih =>
    rw [among, List.filter_cons]
    split
    · have hrest : ∀ m, d.depthAfter m (t.filter fun c => c = d.opening || c = d.closing) =
          d.depthAfter m t := ih
      rw [depthAfter, depthAfter]
      simp only [hrest]
    · next h =>
      simp only [Bool.or_eq_true, decide_eq_true_eq, not_or] at h
      rw [depthAfter, if_neg h.1, if_neg h.2]
      exact ih n

theorem among_outside_of_isAllBlank {d : Delimiter} (ho : Text.isBlank d.opening = false)
    (hc : Text.isBlank d.closing = false) {b : Text} (hb : Text.isAllBlank b = true) (s : Scan) :
    d.among (s.outside b) = [] := by
  refine among_of_notMem (fun h => ?_) (fun h => ?_)
  · rw [List.all_eq_true.1 hb _ (Scan.outside_subset _ _ h)] at ho
    cases ho
  · rw [List.all_eq_true.1 hb _ (Scan.outside_subset _ _ h)] at hc
    cases hc

theorem among_append_blanks {d : Delimiter} (ho : Text.isBlank d.opening = false)
    (hc : Text.isBlank d.closing = false) {b : Text} (hb : Text.isAllBlank b = true) (t : Text) :
    d.among (Scan.start.outside (t ++ b)) = d.among (Scan.start.outside t) := by
  rw [Scan.outside_append, among_append, among_outside_of_isAllBlank ho hc hb, List.append_nil]

theorem netChange_append_blanks {d : Delimiter} (ho : Text.isBlank d.opening = false)
    (hc : Text.isBlank d.closing = false) {b : Text} (hb : Text.isAllBlank b = true) (t : Text) :
    d.netChange (t ++ b) = d.netChange t := by
  rw [netChange_eq_balance, ← balance_among, among_append_blanks ho hc hb, balance_among,
    netChange_eq_balance]

theorem closingFrom_of_depthAfter_eq_some {d : Delimiter} {s : Scan} {n m index : Nat} {t : Text}
    (h : d.depthAfter n (s.outside t) = some m) : d.closingFrom s n index t = .still m := by
  induction t generalizing s n index with
  | nil => cases h; rfl
  | cons c t ih =>
    rw [Scan.outside] at h
    rw [closingFrom]
    split
    · next hs =>
      rw [if_pos hs, depthAfter] at h
      split
      · next ho => exact ih (by rwa [if_pos ho] at h)
      · next ho =>
        rw [if_neg ho] at h
        split
        · next hc =>
          rw [if_pos hc] at h
          split
          · next hn => rw [if_pos hn] at h; cases h
          · next hn => exact ih (by rwa [if_neg hn] at h)
        · next hc => exact ih (by rwa [if_neg hc] at h)
    · next hs => exact ih (by rwa [if_neg hs] at h)

theorem exists_closingFrom_of_depthAfter_eq_none {d : Delimiter} {s : Scan} {n : Nat} {t : Text}
    (h : d.depthAfter n (s.outside t) = none) (index : Nat) :
    ∃ pos, d.closingFrom s n index t = .closed pos := by
  induction t generalizing s n index with
  | nil => cases h
  | cons c t ih =>
    rw [Scan.outside] at h
    rw [closingFrom]
    split
    · next hs =>
      rw [if_pos hs, depthAfter] at h
      split
      · next ho => exact ih (by rwa [if_pos ho] at h) _
      · next ho =>
        rw [if_neg ho] at h
        split
        · next hc =>
          rw [if_pos hc] at h
          split
          · exact ⟨index, rfl⟩
          · next hn => exact ih (by rwa [if_neg hn] at h) _
        · next hc => exact ih (by rwa [if_neg hc] at h) _
    · next hs => exact ih (by rwa [if_neg hs] at h) _

theorem closingFrom_eq (d : Delimiter) (s : Scan) (depth index : Nat) (t : Text) :
    d.closingFrom s depth index t =
      match d.closingFrom s depth 0 t with
      | .still m => .still m
      | .closed pos => .closed (index + pos) := by
  have hshift : ∀ i j, d.closingFrom s depth (i + j) t =
      match d.closingFrom s depth j t with
      | .still m => .still m
      | .closed pos => .closed (i + pos) := by
    induction t generalizing s depth with
    | nil => exact fun _ _ => rfl
    | cons c t ih =>
      intro i j
      simp only [closingFrom, Nat.add_assoc i j, ih]
      split
      · split
        · rfl
        · split
          · split <;> rfl
          · rfl
      · rfl
  exact hshift index 0

theorem closingFrom_append (d : Delimiter) (s : Scan) (depth index : Nat) (a b : Text) :
    d.closingFrom s depth index (a ++ b) =
      match d.closingFrom s depth index a with
      | .still m => d.closingFrom (s.run a) m (index + a.length) b
      | .closed pos => .closed pos := by
  induction a generalizing s depth index with
  | nil => rfl
  | cons c a ih =>
    have hindex : index + 1 + a.length = index + (c :: a).length := by
      rw [List.length_cons]
      omega
    simp only [List.cons_append, closingFrom, ih, Scan.run_cons, hindex]
    split
    · split
      · rfl
      · split
        · split <;> rfl
        · rfl
    · rfl

/-- A search that is closed is so at a closing mark outside quotes, when one delimiter at most is left
open. -/
theorem exists_of_closingFrom_eq_closed {d : Delimiter} {s : Scan} {depth index pos : Nat}
    {t : Text} (h : d.closingFrom s depth index t = .closed pos) :
    ∃ a b m, t = a ++ d.closing :: b ∧ pos = index + a.length ∧
      (s.run a).isOutside d.closing = true ∧ d.depthAfter depth (s.outside a) = some m ∧ m ≤ 1 := by
  induction t generalizing s depth index with
  | nil => cases h
  | cons c t ih =>
    have hcons : ∀ {k}, d.closingFrom (s.next c) k (index + 1) t = .closed pos →
        (∀ a, d.depthAfter depth (s.outside (c :: a)) = d.depthAfter k ((s.next c).outside a)) →
        ∃ a b m, c :: t = a ++ d.closing :: b ∧ pos = index + a.length ∧
          (s.run a).isOutside d.closing = true ∧
          d.depthAfter depth (s.outside a) = some m ∧ m ≤ 1 := by
      intro k hk hdepth
      obtain ⟨a, b, m, ht, hpos, hout, hm⟩ := ih hk
      refine ⟨c :: a, b, m, by rw [ht]; rfl, by rw [List.length_cons]; omega, hout, ?_⟩
      rwa [hdepth]
    rw [closingFrom] at h
    split at h
    · next hout =>
      split at h
      · next ho => exact hcons h fun a => by rw [Scan.outside, if_pos hout, depthAfter, if_pos ho]
      · next ho =>
        split at h
        · next hc =>
          split at h
          · next hle =>
            cases h
            exact ⟨[], t, depth, by rw [hc]; rfl, rfl, by rw [← hc]; exact hout, rfl, hle⟩
          · next hle =>
            refine hcons h fun a => ?_
            rw [Scan.outside, if_pos hout, depthAfter, if_neg ho, if_pos hc, if_neg hle]
        · next hc =>
          refine hcons h fun a => ?_
          rw [Scan.outside, if_pos hout, depthAfter, if_neg ho, if_neg hc]
    · next hout => exact hcons h fun a => by rw [Scan.outside, if_neg hout]

theorem depthAfter_of_closingFrom_eq_still {d : Delimiter} {s : Scan} {n m index : Nat} {t : Text}
    (h : d.closingFrom s n index t = .still m) : d.depthAfter n (s.outside t) = some m := by
  cases hdepth : d.depthAfter n (s.outside t) with
  | none =>
    obtain ⟨pos, hpos⟩ := exists_closingFrom_of_depthAfter_eq_none hdepth index
    rw [h] at hpos
    cases hpos
  | some k =>
    rw [closingFrom_of_depthAfter_eq_some hdepth] at h
    cases h
    rfl

end Delimiter
end HeadJob
