import HeadJob.Proofs.Volume.Merge
import Mathlib.Data.Bool.AllAny

/-!
The quoted strings of a list literal.

Brackets are drawn together wherever they stand, in quotes too.  No match reaches over a quote mark, so
each quoted string is drawn together by itself.
-/

namespace HeadJob

namespace Scan

variable {s : Scan} {q : Quote} {c : Char} {a b t : Text}

/-- The quoted strings of a text, without their marks.  A quote that the text begins in counts from there,
and one that stays open counts up to the end. -/
def strings (s : Scan) : Text → List Text
  | [] => if s.quote.isSome then [[]] else []
  | c :: t =>
    match s.quote, s.quoteAfter c with
    | none, _ => strings (s.next c) t
    | some _, none => [] :: strings (s.next c) t
    | some _, some _ => Text.consLine c (strings (s.next c) t)

theorem strings_cons_of_outside (hs : s.quote = none) (c : Char) (t : Text) :
    s.strings (c :: t) = (s.next c).strings t := by
  rw [strings, hs]

theorem strings_cons_of_closing (hs : s.quote = some q) (hc : s.quoteAfter c = none) (t : Text) :
    s.strings (c :: t) = [] :: (s.next c).strings t := by
  rw [strings, hs, hc]

theorem strings_cons_of_inside {q' : Quote} (hs : s.quote = some q) (hc : s.quoteAfter c = some q')
    (t : Text) : s.strings (c :: t) = Text.consLine c ((s.next c).strings t) := by
  rw [strings, hs, hc]

/-- A text that begins in quotes begins with the rest of a string. -/
theorem exists_strings_eq_cons (hs : s.quote = some q) (t : Text) :
    ∃ h ls, s.strings t = h :: ls ∧ h <+: t := by
  induction t generalizing s q with
  | nil => exact ⟨[], [], by rw [strings, hs]; rfl, List.nil_prefix⟩
  | cons c t ih =>
    cases hc : s.quoteAfter c with
    | none => exact ⟨[], _, strings_cons_of_closing hs hc t, List.nil_prefix⟩
    | some q' =>
      obtain ⟨h, ls, hstrings, hpre⟩ := ih (s := s.next c) hc
      refine ⟨c :: h, ls, ?_, (List.prefix_cons_inj c).2 hpre⟩
      rw [strings_cons_of_inside hs hc, hstrings]
      rfl

/-- Where no quote is open a text has its strings on the two sides apart. -/
theorem strings_append (h : (s.run a).quote = none) (b : Text) :
    s.strings (a ++ b) = s.strings a ++ (s.run a).strings b := by
  induction a generalizing s with
  | nil =>
    have hs : s.quote = none := h
    rw [List.nil_append, run_nil, strings, hs]
    rfl
  | cons c a ih =>
    have hrest := ih (s := s.next c) h
    rw [List.cons_append, run_cons]
    cases hs : s.quote with
    | none => rw [strings_cons_of_outside hs, strings_cons_of_outside hs, hrest]
    | some q =>
      cases hc : s.quoteAfter c with
      | none =>
        rw [strings_cons_of_closing hs hc, strings_cons_of_closing hs hc, hrest, List.cons_append]
      | some q' =>
        obtain ⟨h, ls, hstrings, -⟩ := exists_strings_eq_cons (s := s.next c) hc a
        rw [strings_cons_of_inside hs hc, strings_cons_of_inside hs hc, hrest, hstrings]
        rfl

theorem strings_eq_nil (hs : s.quote = none) (ht : ∀ c ∈ t, Quote.ofMark? c = none) :
    s.strings t = [] := by
  induction t generalizing s with
  | nil => rw [strings, hs]; rfl
  | cons c t ih =>
    have hnext : (s.next c).quote = none := by
      rw [← hs]
      exact quoteAfter_of_ofMark?_eq_none (ht c List.mem_cons_self) s
    rw [strings_cons_of_outside hs, ih hnext fun d hd => ht d (List.mem_cons_of_mem c hd)]

/-- A text without marks in front of another has no strings outside quotes. -/
theorem strings_append_of_outside (hs : s.quote = none) (ha : ∀ c ∈ a, Quote.ofMark? c = none)
    (b : Text) : s.strings (a ++ b) = (s.run a).strings b := by
  rw [strings_append (by rw [quote_run_of_ofMark?_eq_none ha, hs]), strings_eq_nil hs ha,
    List.nil_append]

/-- In quotes it belongs to the string that is open. -/
theorem strings_append_of_inside (hs : s.quote = some q) (ha : ∀ c ∈ a, Quote.ofMark? c = none)
    (b : Text) :
    ∃ h ls, (s.run a).strings b = h :: ls ∧ h <+: b ∧ s.strings (a ++ b) = (a ++ h) :: ls := by
  induction a generalizing s with
  | nil =>
    obtain ⟨h, ls, hstrings, hpre⟩ := exists_strings_eq_cons hs b
    exact ⟨h, ls, hstrings, hpre, hstrings⟩
  | cons c a ih =>
    have hc : s.quoteAfter c = some q := by
      rw [quoteAfter_of_ofMark?_eq_none (ha c List.mem_cons_self), hs]
    obtain ⟨h, ls, hrest, hpre, hstrings⟩ :=
      ih (s := s.next c) hc fun d hd => ha d (List.mem_cons_of_mem c hd)
    refine ⟨h, ls, hrest, hpre, ?_⟩
    rw [List.cons_append, strings_cons_of_inside hs hc, hstrings]
    rfl

theorem run_quoted (ht : ∀ c ∈ t, Quote.ofMark? c = none) (q : Quote) :
    (⟨some q, false⟩ : Scan).run t = ⟨some q, t.getLast? == some '\\'⟩ := by
  rcases List.eq_nil_or_concat t with rfl | ⟨x, c, rfl⟩
  · rfl
  · rw [List.concat_eq_append] at ht ⊢
    have hx := quote_run_of_ofMark?_eq_none (fun d hd => ht d (List.mem_append_left _ hd)) ⟨some q, false⟩
    rw [run_append, run_cons, run_nil, next, quoteAfter_of_ofMark?_eq_none (ht c (by simp)), hx,
      List.getLast?_concat]
    simp

/-- A text in single quotes is a string by itself, unless a backslash in front of the closing mark takes
it in. -/
theorem strings_quoted {w : Text} (hw : ∀ c ∈ w, Quote.ofMark? c = none ∧ c ≠ '\\')
    (ht : ∀ c ∈ t, Quote.ofMark? c = none) (b : Text) :
    (t.getLast? ≠ some '\\' →
        start.strings (w ++ '\'' :: (t ++ '\'' :: b)) = t :: start.strings b) ∧
      (t.getLast? = some '\\' →
        ∃ h ls, start.strings (w ++ '\'' :: (t ++ '\'' :: b)) = (t ++ '\'' :: h) :: ls) := by
  have hopen : start.strings (w ++ '\'' :: (t ++ '\'' :: b)) =
      (⟨some .single, false⟩ : Scan).strings (t ++ '\'' :: b) := by
    rw [strings_append_of_outside rfl fun c hc => (hw c hc).1, run_start_of_plain hw,
      strings_cons_of_outside rfl]
    rfl
  obtain ⟨h, ls, hrest, -, hstrings⟩ := strings_append_of_inside (s := ⟨some .single, false⟩) rfl ht
    ('\'' :: b)
  rw [run_quoted ht] at hrest
  rw [hopen, hstrings]
  refine ⟨fun hlast => ?_, fun hlast => ?_⟩
  · rw [show (t.getLast? == some '\\') = false by simpa using hlast,
      strings_cons_of_closing rfl rfl] at hrest
    obtain ⟨rfl, rfl⟩ := List.cons.inj hrest
    rw [List.append_nil]
    rfl
  · rw [hlast, strings_cons_of_inside rfl rfl] at hrest
    obtain ⟨h', ls', hafter, -⟩ :=
      exists_strings_eq_cons (s := (⟨some .single, some '\\' == some '\\'⟩ : Scan).next '\'') rfl b
    rw [hafter] at hrest
    obtain ⟨rfl, rfl⟩ := List.cons.inj hrest
    exact ⟨h', ls', rfl⟩

/-! ## Texts that are put in place of others -/

/-- A text without quote marks that ends in no backslash. -/
def IsInert (t : Text) : Prop :=
  (∀ c ∈ t, Quote.ofMark? c = none) ∧ ∃ x c, t = x ++ [c] ∧ c ≠ '\\'

theorem IsInert.run (h : IsInert t) (s : Scan) : s.run t = ⟨s.quote, false⟩ := by
  obtain ⟨hmark, x, c, rfl, hc⟩ := h
  rw [run_append, run_cons, run_nil, next_of_plain (hmark c (by simp)) hc,
    quote_run_of_ofMark?_eq_none fun d hd => hmark d (List.mem_append_left _ hd)]

theorem IsInert.ne_nil (h : IsInert t) : t ≠ [] := by
  obtain ⟨-, x, c, rfl, -⟩ := h
  simp

end Scan

namespace Pattern

theorem Matches.eq_none_of_append {p : Pattern Unit} {M : Text → Prop} (hp : p.Matches M) {t x : Text}
    (h : p (t ++ x) = none) : p t = none := by
  cases hn : p t with
  | none => rfl
  | some hit =>
    obtain ⟨f, rest, hf, rfl, -⟩ := (hp t hit.2).1 hn
    have hlonger := (hp (f ++ rest ++ x) f.length).2 ⟨f, rest ++ x, hf, List.append_assoc f rest x, rfl⟩
    rw [h] at hlonger
    cases hlonger

/-- What is replaced by a pattern that matches inert texts alone is replaced in each string by itself. -/
theorem Matches.strings_replace {p : Pattern Unit} {M : Text → Prop} {w : Text} (hp : p.Matches M)
    (hM : ∀ f, M f → Scan.IsInert f) (hw : Scan.IsInert w) (s : Scan) (t : Text) :
    s.strings (p.replace (fun _ => w) t) = (s.strings t).map (p.replace fun _ => w) := by
  have hadvances : p.Advances := by
    rintro t ⟨⟩ n h
    obtain ⟨f, rest, hf, rfl, rfl⟩ := (hp t n).1 h
    exact ⟨List.length_pos_iff.2 (hM f hf).ne_nil, by simp⟩
  refine Pattern.replace_induction hadvances (fun _ => w)
    (Q := fun t u => ∀ s : Scan, s.strings u = (s.strings t).map (p.replace fun _ => w))
    (fun s => ?_) (fun c t u hnone ih s => ?_) (fun t _ n u hn ih s => ?_) t s
  · rw [Scan.strings]
    split <;> rfl
  · cases hs : s.quote with
    | none => rw [Scan.strings_cons_of_outside hs, Scan.strings_cons_of_outside hs, ih]
    | some q =>
      cases hc : s.quoteAfter c with
      | none =>
        rw [Scan.strings_cons_of_closing hs hc, Scan.strings_cons_of_closing hs hc, ih, List.map_cons]
        rfl
      | some q' =>
        obtain ⟨h, ls, hstrings, x, rfl⟩ := Scan.exists_strings_eq_cons (s := s.next c) hc t
        have hnone' : p (c :: h) = none := hp.eq_none_of_append hnone
        rw [Scan.strings_cons_of_inside hs hc, Scan.strings_cons_of_inside hs hc, ih, hstrings,
          Text.consLine, List.map_cons, List.map_cons, replace_cons_of_none _ hnone']
        rfl
  · obtain ⟨f, rest, hf, rfl, rfl⟩ := (hp _ _).1 hn
    rw [List.drop_left] at ih
    cases hs : s.quote with
    | none =>
      rw [Scan.strings_append_of_outside hs hw.1, Scan.strings_append_of_outside hs (hM f hf).1,
        hw.run, (hM f hf).run, ih]
    | some q =>
      obtain ⟨h, ls, hrest, -, hnew⟩ := Scan.strings_append_of_inside hs hw.1 u
      obtain ⟨h', ls', hrest', -, hold⟩ := Scan.strings_append_of_inside hs (hM f hf).1 rest
      rw [hw.run] at hrest
      rw [(hM f hf).run] at hrest'
      rw [ih, hrest', List.map_cons] at hrest
      obtain ⟨rfl, rfl⟩ := List.cons.inj hrest
      have hhit : p (f ++ h') = some ((), f.length) := (hp _ _).2 ⟨f, h', hf, rfl, rfl⟩
      rw [hnew, hold, List.map_cons, replace_of_match _ (hM f hf).ne_nil hhit]

end Pattern

namespace PodList

open Text (isBlank isAllBlank)

variable {c : Char} {t literal : Text} {v : Volume}

/-! ## The strings of a list -/

theorem isInert_of_isJoint {x : Text} (hc : isJoint c = true)
    (hx : ∀ d ∈ x, isJoint d = true ∨ isBlank d = true) : Scan.IsInert (x ++ [c]) := by
  refine ⟨fun d hd => ?_, x, c, rfl, (isJoint_plain hc).2.1⟩
  rcases List.mem_append.1 hd with hd | hd
  · exact (hx d hd).elim (fun h => (isJoint_plain h).1) Scan.ofMark?_eq_none_of_isBlank
  · rw [List.mem_singleton.1 hd]
    exact (isJoint_plain hc).1

theorem strings_bracketPair (hc : isJoint c = true) (s : Scan) (t : Text) :
    s.strings ((bracketPair c).replace (fun _ => [c, c]) t) =
      (s.strings t).map ((bracketPair c).replace fun _ => [c, c]) := by
  refine (matches_bracketPair (isBlank_of_isJoint hc)).strings_replace ?_ ?_ s t
  · rintro _ ⟨b, hb, rfl⟩
    refine isInert_of_isJoint hc fun d hd => ?_
    rcases List.mem_cons.1 hd with rfl | hd
    · exact .inl hc
    · exact .inr (List.all_eq_true.1 hb d hd)
  · exact isInert_of_isJoint (x := [c]) hc fun d hd => .inl (List.mem_singleton.1 hd ▸ hc)

theorem strings_separator (s : Scan) (t : Text) :
    s.strings (separator.replace (fun _ => separatorText) t) =
      (s.strings t).map (separator.replace fun _ => separatorText) := by
  refine matches_separator.strings_replace ?_ ?_ s t
  · rintro _ ⟨b, b', hb, hb', rfl⟩
    refine isInert_of_isJoint (by decide) fun d hd => ?_
    simp only [List.mem_cons, List.mem_append] at hd
    rcases hd with rfl | hd | rfl | hd
    · exact .inl (by decide)
    · exact .inr (List.all_eq_true.1 hb d hd)
    · exact .inl (by decide)
    · exact .inr (List.all_eq_true.1 hb' d hd)
  · exact isInert_of_isJoint (c := '[') (x := [']', ',']) (by decide)
      (List.all_iff_forall_prop.1 (by decide))

/-- A literal is drawn together in each of its strings by itself. -/
theorem strings_normalize (s : Scan) (t : Text) :
    s.strings (normalize t) = (s.strings t).map normalize := by
  rw [normalize_eq, strings_separator, strings_bracketPair (by decide),
    strings_bracketPair (by decide), List.map_map, List.map_map]
  rfl

theorem ofMark?_append {a b : Text} (ha : ∀ c ∈ a, Quote.ofMark? c = none)
    (hb : ∀ c ∈ b, Quote.ofMark? c = none) : ∀ c ∈ a ++ b, Quote.ofMark? c = none :=
  fun c hc => (List.mem_append.1 hc).elim (ha c) (hb c)

theorem ofMark?_of_isAllBlank {b : Text} (hb : isAllBlank b = true) :
    ∀ c ∈ b, Quote.ofMark? c = none :=
  fun c hc => Scan.ofMark?_eq_none_of_isBlank (List.all_eq_true.1 hb c hc)

/-- What stands around the inside of a list has no strings. -/
theorem strings_inside (hquote : (Scan.start.run literal).quote = none) :
    Scan.start.strings (inside literal) = (Scan.start.strings literal).map normalize := by
  obtain ⟨x, y, hx, hy, htrim⟩ := Text.exists_blanks_trim_blanks (normalize literal)
  obtain ⟨n, -, hinside⟩ := exists_inside literal
  have hopen : Scan.start.run (x ++ List.replicate n '[') = Scan.start := by
    rw [Scan.run_append, Scan.run_start_of_isAllBlank hx]
    refine Scan.run_start_of_plain fun c hc => ?_
    rw [List.eq_of_mem_replicate hc]
    decide
  have hfront := ofMark?_append (ofMark?_of_isAllBlank hx)
    (ofMark?_of_mem_replicate (c := '[') (by decide) (n := n))
  have hback := ofMark?_append (ofMark?_of_mem_replicate (c := ']') (by decide) (n := n))
    (ofMark?_of_isAllBlank hy)
  have hclosed := (scan_inside hquote).1
  have hsplit : normalize literal = (x ++ List.replicate n '[') ++
      (inside literal ++ (List.replicate n ']' ++ y)) := by
    rw [htrim, hinside]
    simp only [List.append_assoc]
  rw [← strings_normalize, hsplit, Scan.strings_append_of_outside rfl hfront, hopen,
    Scan.strings_append hclosed, Scan.strings_eq_nil hclosed hback, List.append_nil]

/-- A list that is written again has its strings inside. -/
theorem strings_toLiteral_parse (hquote : (Scan.start.run literal).quote = none) :
    Scan.start.strings (parse literal).toLiteral = Scan.start.strings (inside literal) := by
  rw [parse]
  split
  · next hblank =>
    rw [Scan.strings_eq_nil (s := Scan.start) rfl (ofMark?_of_isAllBlank hblank)]
    rfl
  · have hclosed := (scan_inside hquote).1
    have hback : ∀ c ∈ [']', ']'], Quote.ofMark? c = none :=
      List.all_iff_forall_prop.1 (by decide)
    have hne : Text.splitOn separatorText (inside literal) ≠ [] := Piece.between_ne_nil _
    rw [toLiteral, if_neg hne, Text.join_splitOn, List.append_assoc,
      Scan.strings_append_of_outside rfl (List.all_iff_forall_prop.1 (by decide)),
      show Scan.start.run ['[', '['] = Scan.start from rfl, Scan.strings_append hclosed,
      Scan.strings_eq_nil hclosed hback, List.append_nil]

/-- A volume that is put into a list brings in the strings of its own entry. -/
theorem strings_merge_of_not_holds (hquote : (Scan.start.run literal).quote = none)
    (h : (parse literal).holds v = false) :
    Scan.start.strings ((parse literal).merge v).toLiteral =
      Scan.start.strings (inside literal) ++ Scan.start.strings (v.entry ++ [']', ']']) := by
  have hfront : Scan.start.strings (front literal) = Scan.start.strings (inside literal) := by
    unfold front
    split
    · next hblank =>
      rw [Scan.strings_eq_nil (s := Scan.start) rfl (ofMark?_of_isAllBlank hblank)]
      rfl
    · have hclosed := (scan_inside hquote).1
      rw [Scan.strings_append hclosed,
        Scan.strings_eq_nil hclosed (ofMark?_of_isPassive isPassive_separatorText),
        List.append_nil]
  have hopen : (Scan.start.run (front literal)).quote = none := by rw [run_front hquote]; rfl
  rw [toLiteral_merge h, List.append_assoc, List.append_assoc,
    Scan.strings_append_of_outside rfl (List.all_iff_forall_prop.1 (by decide)),
    show Scan.start.run ['[', '['] = Scan.start from rfl, Scan.strings_append hopen,
    run_front hquote, hfront]

/-- A written entry has the claim and the path for strings, unless one of them ends in a backslash. -/
theorem strings_entry_eq_iff (hv : v.IsClear) :
    Scan.start.strings (v.entry ++ [']', ']']) = [v.claim, v.path] ↔
      v.claim.getLast? ≠ some '\\' ∧ v.path.getLast? ≠ some '\\' := by
  have hmark : ∀ {c : Char}, Volume.isQuoteMark c = false → Quote.ofMark? c = none := by
    intro c hc
    simp only [Volume.isQuoteMark, Bool.or_eq_false_iff, beq_eq_false_iff_ne] at hc
    rw [Quote.ofMark?, if_neg hc.1, if_neg hc.2]
  have hclaim : ∀ c ∈ v.claim, Quote.ofMark? c = none := fun c hc =>
    hmark (hv c (List.mem_append_left _ hc)).1
  have hpath : ∀ c ∈ v.path, Quote.ofMark? c = none := fun c hc =>
    hmark (hv c (List.mem_append_right _ hc)).1
  have hsplit : v.entry ++ [']', ']'] = ("volumeClaim".toList ++ [':']) ++ '\'' :: (v.claim ++ '\'' ::
      ((", mountPath".toList ++ [':']) ++ '\'' :: (v.path ++ '\'' :: [']', ']']))) := by
    rw [Volume.entry_eq]
    simp only [List.cons_append, List.append_assoc, List.nil_append]
  obtain ⟨hclosed, hopen⟩ := Scan.strings_quoted (w := "volumeClaim".toList ++ [':'])
    (List.all_iff_forall_prop.1 (by decide)) hclaim
    ((", mountPath".toList ++ [':']) ++ '\'' :: (v.path ++ '\'' :: [']', ']']))
  obtain ⟨hclosed', hopen'⟩ := Scan.strings_quoted (w := ", mountPath".toList ++ [':'])
    (List.all_iff_forall_prop.1 (by decide)) hpath [']', ']']
  have hne : ∀ (t h : Text), t ++ '\'' :: h ≠ t := fun t h heq => by
    have hlength := congrArg List.length heq
    simp at hlength
  rw [hsplit]
  by_cases hc : v.claim.getLast? = some '\\'
  · obtain ⟨h, ls, hstrings⟩ := hopen hc
    rw [hstrings]
    refine iff_of_false (fun heq => hne _ _ (List.cons.inj heq).1) fun h => h.1 hc
  · rw [hclosed hc]
    by_cases hp : v.path.getLast? = some '\\'
    · obtain ⟨h, ls, hstrings⟩ := hopen' hp
      rw [hstrings]
      refine iff_of_false (fun heq => ?_) fun h => h.2 hp
      exact hne _ _ (List.cons.inj (List.cons.inj heq).2).1
    · rw [hclosed' hp]
      exact iff_of_true rfl ⟨hc, hp⟩

/-- Putting a volume into a list draws each quoted string of the list together by itself.  So the strings
come through as they are, with the claim and the path behind them if the volume was not held, exactly if
there is nothing to be drawn together in any of them and the new entry closes its quotes. -/
theorem strings_merge (hquote : (Scan.start.run literal).quote = none) (hv : v.IsClear) :
    Scan.start.strings ((parse literal).merge v).toLiteral =
        (Scan.start.strings literal).map normalize ++
          (if (parse literal).holds v then [] else Scan.start.strings (v.entry ++ [']', ']'])) ∧
      (Scan.start.strings ((parse literal).merge v).toLiteral =
          Scan.start.strings literal ++
            (if (parse literal).holds v then [] else [v.claim, v.path]) ↔
        (∀ q ∈ Scan.start.strings literal, normalize q = q) ∧
          ((parse literal).holds v = true ∨
            (v.claim.getLast? ≠ some '\\' ∧ v.path.getLast? ≠ some '\\'))) := by
  have hkept : ∀ added added' : List Text,
      (Scan.start.strings literal).map normalize ++ added = Scan.start.strings literal ++ added' ↔
        (∀ q ∈ Scan.start.strings literal, normalize q = q) ∧ added = added' := by
    intro added added'
    constructor
    · intro h
      obtain ⟨hmap, hadded⟩ := List.append_inj h (List.length_map _)
      exact ⟨List.map_inj_left.1 (hmap.trans (List.map_id _).symm), hadded⟩
    · rintro ⟨hsame, rfl⟩
      rw [List.map_inj_left.2 hsame, List.map_id']
  cases hholds : (parse literal).holds v with
  | true =>
    have hnew : Scan.start.strings ((parse literal).merge v).toLiteral =
        (Scan.start.strings literal).map normalize ++ [] := by
      rw [merge, if_pos hholds, strings_toLiteral_parse hquote, strings_inside hquote, List.append_nil]
    rw [hnew, if_pos rfl, if_pos rfl, hkept]
    simp
  | false =>
    have hnew := strings_merge_of_not_holds hquote hholds
    rw [strings_inside hquote] at hnew
    rw [hnew, if_neg (by decide), if_neg (by decide), hkept, strings_entry_eq_iff hv]
    simp

theorem strings_merge_of_json :
    ∃ (literal : Text) (v : Volume), (Scan.start.run literal).quote = none ∧ v.IsClear ∧
      Scan.start.strings literal = ["A".toList, "[1, [2]]".toList] ∧
      Scan.start.strings ((parse literal).merge v).toLiteral =
        Scan.start.strings literal ++ [v.claim, v.path] := by
  let literal := "[[env:'A', value:'[1, [2]]']]".toList
  let v : Volume := ⟨"c".toList, "/p".toList⟩
  have hquote : (Scan.start.run literal).quote = none := by decide
  have hv : v.IsClear := by decide
  have hholds : (parse literal).holds v = false := by decide +kernel
  have hkept := (strings_merge hquote hv).2.2 ⟨by decide +kernel, .inr (by decide)⟩
  rw [hholds] at hkept
  exact ⟨literal, v, hquote, hv, by decide, hkept⟩

/-- A list of entries that have no brackets outside quotes. -/
structure IsQuotedList (literal : Text) : Prop where
  quote : (Scan.start.run literal).quote = none
  layout : ∃ es, IsLayout es (Scan.start.outside literal) ∧ ∀ e ∈ es, IsBracketFree e

/-- Blanks between brackets are dropped from a quoted string. -/
theorem not_strings_merge_of_spaced_json :
    ∃ (literal : Text) (v : Volume), IsQuotedList literal ∧ v.IsClear ∧ v.IsPlain ∧
      (parse literal).holds v = false ∧
      Scan.start.strings literal = ["A".toList, "[ [1] ]".toList] ∧
      Scan.start.strings ((parse literal).merge v).toLiteral =
        ["A".toList, "[[1]]".toList, v.claim, v.path] ∧
      Scan.start.strings ((parse literal).merge v).toLiteral ≠
        Scan.start.strings literal ++ [v.claim, v.path] := by
  have hlayout : IsLayout ["env:, value:".toList] "[[env:, value:]]".toList :=
    .list [] [] [] [] rfl rfl rfl rfl (.single _)
  refine ⟨"[[env:'A', value:'[ [1] ]']]".toList, ⟨"c".toList, "/p".toList⟩,
    ⟨by decide, _, hlayout, by decide⟩, by decide, by decide, by decide +kernel, by decide,
    by decide +kernel, by decide +kernel⟩

end PodList
end HeadJob
