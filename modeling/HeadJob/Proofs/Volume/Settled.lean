import HeadJob.Proofs.Volume.Reread

/-!
Lists that come back when their literal is read again.

Entries without brackets come back from every layout.  In any other list the brackets of one kind are
taken in pairs from the left, so they fall into other pairs when one of them is taken off in front.  The
main statement says that this is all that may happen: a list comes back exactly if its opening brackets
are drawn together as they stand in it, and at the second reading every list does.
-/

namespace HeadJob
namespace PodList

open Text (isBlank isAllBlank)

variable {c d : Char} {b t : Text} {es : List Text} {literal : Text}

/-! ## Brackets in pairs -/

/-- What the brackets of one kind, taken in pairs from the left, leave at a place of a text: none that
waits for another one, or one that waits, right in front or behind blanks. -/
inductive Waiting where
  | free
  | near
  | far
  deriving DecidableEq

namespace Waiting

variable {w w' : Waiting}

/-- What is left behind a character.  There is nothing where a pair closes that has blanks in it, since
that is where a text is drawn together. -/
def next (c : Char) : Waiting → Char → Option Waiting
  | .free, d => some (if d = c then .near else .free)
  | .near, d => some (if d = c then .free else if isBlank d then .far else .free)
  | .far, d => if d = c then none else some (if isBlank d then .far else .free)

def run (c : Char) (w : Waiting) (t : Text) : Option Waiting := t.foldlM (next c) w

theorem run_cons (c : Char) (w : Waiting) (d : Char) (t : Text) :
    run c w (d :: t) = (next c w d).bind (run c · t) := List.foldlM_cons

theorem run_append (c : Char) (w : Waiting) (s t : Text) :
    run c w (s ++ t) = (run c w s).bind (run c · t) := List.foldlM_append

theorem run_concat (c : Char) (w : Waiting) (t : Text) (d : Char) :
    run c w (t ++ [d]) = (run c w t).bind (next c · d) := by
  rw [run_append]
  exact congrArg _ (funext fun w' => (run_cons c w' d []).trans (Option.bind_fun_some _))

theorem run_free_self (c : Char) (t : Text) : run c .free (c :: t) = run c .near t := by
  rw [run_cons, next, if_pos rfl]
  rfl

theorem run_free_cons (hdc : d ≠ c) (t : Text) : run c .free (d :: t) = run c .free t := by
  rw [run_cons, next, if_neg hdc]
  rfl

theorem run_free_append (hb : c ∉ b) (t : Text) : run c .free (b ++ t) = run c .free t := by
  induction b with
  | nil => rfl
  | cons x b ih =>
    rw [List.mem_cons, not_or] at hb
    rw [List.cons_append, run_free_cons (Ne.symm hb.1), ih hb.2]

theorem ne_of_isBlank (hc : isBlank c = false) (hd : isBlank d = true) : d ≠ c := by
  rintro rfl
  rw [hc] at hd
  cases hd

theorem exists_run_cons_of_isBlank (hc : isBlank c = false) (hd : isBlank d = true) (w : Waiting)
    (t : Text) : ∃ w', run c w (d :: t) = run c w' t := by
  have hdc := ne_of_isBlank hc hd
  cases w with
  | free => exact ⟨.free, run_free_cons hdc t⟩
  | near => exact ⟨.far, by rw [run_cons, next, if_neg hdc, if_pos hd]; rfl⟩
  | far => exact ⟨.far, by rw [run_cons, next, if_neg hdc, if_pos hd]; rfl⟩

theorem run_cons_of_ne (hd : isBlank d = false) (hdc : d ≠ c) (w : Waiting) (t : Text) :
    run c w (d :: t) = run c .free t := by
  have hnext : next c w d = some .free := by cases w <;> simp [next, hd, hdc]
  rw [run_cons, hnext]
  rfl

/-- In front of what breaks a pair off, blanks make no difference. -/
theorem run_blanks_append (hc : isBlank c = false) (hb : isAllBlank b = true) (hd : isBlank d = false)
    (hdc : d ≠ c) (w : Waiting) (t : Text) : run c w (b ++ d :: t) = run c .free t := by
  induction b generalizing w with
  | nil => exact run_cons_of_ne hd hdc w t
  | cons x b ih =>
    rw [isAllBlank, List.all_cons, Bool.and_eq_true] at hb
    obtain ⟨w', hw'⟩ := exists_run_cons_of_isBlank hc hb.1 w (b ++ d :: t)
    rw [List.cons_append, hw', ih hb.2]

/-- Blanks matter between two brackets of the kind alone. -/
theorem run_draw {x y : Char} (hc : isBlank c = false) (hx : isBlank x = false) (hy : isBlank y = false)
    (hxy : x ≠ c ∨ y ≠ c) (hb : isAllBlank b = true) (w : Waiting) (t : Text) :
    run c w (x :: (b ++ y :: t)) = run c w (x :: y :: t) := by
  by_cases hyc : y = c
  · have hxc : x ≠ c := hxy.resolve_right fun h => h hyc
    rw [run_cons_of_ne hx hxc, run_cons_of_ne hx hxc,
      run_free_append (Volume.notMem_of_isAllBlank hb hc)]
  · rw [run_cons, run_cons]
    refine congrArg _ (funext fun w' => ?_)
    rw [run_blanks_append hc hb hy hyc, run_cons_of_ne hy hyc]

theorem run_far_append (hc : isBlank c = false) (hb : isAllBlank b = true) (t : Text) :
    run c .far (b ++ c :: t) = none := by
  induction b with
  | nil =>
    rw [List.nil_append, run_cons, next, if_pos rfl]
    rfl
  | cons x b ih =>
    rw [isAllBlank, List.all_cons, Bool.and_eq_true] at hb
    rw [List.cons_append, run_cons, next, if_neg (ne_of_isBlank hc hb.1), if_pos hb.1]
    exact ih hb.2

/-- A bracket that waits makes no difference where no other one follows it. -/
theorem isSome_run (hc : isBlank c = false) (ht : (Text.trimStart t).head? ≠ some c) (w : Waiting) :
    (run c w t).isSome = (run c .free t).isSome := by
  induction t generalizing w with
  | nil => rfl
  | cons d t ih =>
    by_cases hd : isBlank d = true
    · rw [Text.trimStart, List.dropWhile_cons_of_pos hd] at ht
      obtain ⟨w', hw'⟩ := exists_run_cons_of_isBlank hc hd w t
      rw [hw', run_free_cons (ne_of_isBlank hc hd)]
      exact ih ht w'
    · rw [Bool.not_eq_true] at hd
      have hdc : d ≠ c := by
        rintro rfl
        rw [Text.trimStart_cons hd] at ht
        exact ht rfl
      rw [run_cons_of_ne hd hdc, run_cons_of_ne hd hdc]

/-- A bracket that waits behind blanks does so only behind a blank. -/
theorem ne_far_of_run (h : run c .free t = some w) (ht : ∀ d ∈ t.getLast?, isBlank d = false) :
    w ≠ .far := by
  rintro rfl
  rcases List.eq_nil_or_concat t with rfl | ⟨x, d, rfl⟩
  · cases h
  · rw [List.concat_eq_append] at h ht
    rw [run_concat, Option.bind_eq_some_iff] at h
    obtain ⟨v, -, hv⟩ := h
    have hd := ht d List.getLast?_concat
    cases v with
    | free => simp only [next, Option.some.injEq] at hv; split at hv <;> cases hv
    | near => simp only [next, hd, Option.some.injEq] at hv; split at hv <;> cases hv
    | far => simp only [next, hd] at hv; split at hv <;> cases hv

/-- Where no bracket waits behind blanks another one may follow. -/
theorem exists_run_concat (h : run c .free t = some w) (hw : w ≠ .far) :
    ∃ w', run c .free (t ++ [c]) = some w' ∧ w' ≠ .far := by
  rw [run_concat, h, Option.bind_some]
  cases w with
  | free => exact ⟨.near, by rw [next, if_pos rfl], by decide⟩
  | near => exact ⟨.free, by rw [next, if_pos rfl], by decide⟩
  | far => exact absurd rfl hw

end Waiting

/-- No blanks stand in the pairs of a bracket, taken from the left. -/
def IsTight (c : Char) (t : Text) : Prop := (Waiting.run c .free t).isSome = true

instance (c : Char) (t : Text) : Decidable (IsTight c t) := inferInstanceAs (Decidable (_ = true))

theorem isTight_cons (hc : isBlank c = false) (h : d = c → (Text.trimStart t).head? ≠ some c) :
    IsTight c (d :: t) ↔ IsTight c t := by
  by_cases hdc : d = c
  · subst hdc
    rw [IsTight, Waiting.run_free_self, Waiting.isSome_run hc (h rfl), IsTight]
  · rw [IsTight, Waiting.run_free_cons hdc, IsTight]

theorem isTight_pair (hc : isBlank c = false) (hb : isAllBlank b = true) (t : Text) :
    IsTight c (c :: (b ++ c :: t)) ↔ b = [] ∧ IsTight c t := by
  rw [IsTight, Waiting.run_free_self]
  cases b with
  | nil =>
    rw [List.nil_append, Waiting.run_cons, Waiting.next, if_pos rfl]
    exact (and_iff_right rfl).symm
  | cons x b =>
    rw [isAllBlank, List.all_cons, Bool.and_eq_true] at hb
    rw [List.cons_append, Waiting.run_cons, Waiting.next, if_neg (Waiting.ne_of_isBlank hc hb.1),
      if_pos hb.1, Option.bind_some, Waiting.run_far_append hc hb.2]
    exact iff_of_false (by decide) fun h => List.cons_ne_nil x b h.1

theorem IsTight.of_append {s : Text} (h : IsTight c (s ++ t)) : IsTight c s := by
  rw [IsTight, Waiting.run_append] at h
  exact Option.isSome_of_isSome_bind h

/-! ## Drawing together -/

/-- The text with the pairs of a bracket drawn together. -/
def drawTogether (c : Char) (t : Text) : Text := (bracketPair c).replace (fun _ => [c, c]) t

theorem bracketPair_eq_none_iff (c : Char) (t : Text) :
    bracketPair c (c :: t) = none ↔ (Text.trimStart t).head? ≠ some c := by
  have hdrop : bracketPair c (c :: t) = none ↔ Volume.dropChar? c t = none := by
    simp [bracketPair, Pattern.ofReader]
  rw [hdrop, Volume.dropChar?]
  cases Text.trimStart t with
  | nil => simp
  | cons d r => simp

theorem head?_trimStart_cons {u : Text}
    (h : (Text.trimStart u).head? = (Text.trimStart t).head?) (d : Char) :
    (Text.trimStart (d :: u)).head? = (Text.trimStart (d :: t)).head? := by
  by_cases hd : isBlank d = true
  · rwa [Text.trimStart, Text.trimStart, List.dropWhile_cons_of_pos hd, List.dropWhile_cons_of_pos hd]
  · rw [Bool.not_eq_true] at hd
    rw [Text.trimStart_cons hd, Text.trimStart_cons hd]
    rfl

theorem isTight_drawTogether (hc : isBlank c = false) (t : Text) : IsTight c (drawTogether c t) := by
  refine ((matches_bracketPair hc).replace_induction (advances_bracketPair hc) _
    (Q := fun t u => (Text.trimStart u).head? = (Text.trimStart t).head? ∧ IsTight c u) ⟨rfl, rfl⟩
    (fun d t u hnone ⟨hhead, hu⟩ => ?_) ?_ t).2
  · refine ⟨head?_trimStart_cons hhead d, (isTight_cons hc ?_).2 hu⟩
    rintro rfl
    rw [hhead]
    exact (bracketPair_eq_none_iff d t).1 hnone
  · rintro _ t u ⟨b, -, rfl⟩ ⟨-, hu⟩
    refine ⟨?_, (isTight_pair hc (b := []) rfl u).2 ⟨rfl, hu⟩⟩
    show (Text.trimStart (c :: c :: u)).head? = (Text.trimStart (c :: (b ++ [c] ++ t))).head?
    rw [Text.trimStart_cons hc, Text.trimStart_cons hc]
    rfl

theorem IsTight.drawTogether_eq (hc : isBlank c = false) (h : IsTight c t) : drawTogether c t = t := by
  refine (matches_bracketPair hc).replace_induction (advances_bracketPair hc) _
    (Q := fun t u => IsTight c t → u = t) (fun _ => rfl) (fun d t u hnone ih h => ?_) ?_ t h
  · refine congrArg (d :: ·) (ih ((isTight_cons hc ?_).1 h))
    rintro rfl
    exact (bracketPair_eq_none_iff d t).1 hnone
  · rintro _ t u ⟨b, hb, rfl⟩ ih h
    obtain ⟨rfl, ht⟩ := (isTight_pair hc hb t).1 (by simpa using h)
    rw [ih ht]
    rfl

theorem drawTogether_eq_self_iff (hc : isBlank c = false) : drawTogether c t = t ↔ IsTight c t := by
  refine ⟨fun h => ?_, fun h => h.drawTogether_eq hc⟩
  rw [← h]
  exact isTight_drawTogether hc t

theorem Waiting.run_cons_congr {u : Text} (h : ∀ w, run c w u = run c w t) (d : Char) (w : Waiting) :
    run c w (d :: u) = run c w (d :: t) := by
  rw [run_cons, run_cons]
  exact congrArg _ (funext h)

/-- Another bracket that is drawn together leaves the pairs as they are. -/
theorem run_drawTogether (hc : isBlank c = false) (hd : isBlank d = false) (hdc : d ≠ c)
    (w : Waiting) (t : Text) : Waiting.run c w (drawTogether d t) = Waiting.run c w t := by
  refine (matches_bracketPair hd).replace_induction (advances_bracketPair hd) _
    (Q := fun t u => ∀ w, Waiting.run c w u = Waiting.run c w t) (fun _ => rfl)
    (fun x t u _ ih => Waiting.run_cons_congr ih x) ?_ t w
  rintro _ t u ⟨b, hb, rfl⟩ ih w
  calc Waiting.run c w (d :: d :: u)
      = Waiting.run c w (d :: d :: t) := Waiting.run_cons_congr (Waiting.run_cons_congr ih d) d w
    _ = Waiting.run c w (d :: (b ++ d :: t)) := (Waiting.run_draw hc hd hd (.inl hdc) hb w t).symm
    _ = Waiting.run c w (d :: b ++ [d] ++ t) := by simp

/-- So do entries whose separators are drawn together. -/
theorem run_separators (hc : c = '[' ∨ c = ']') (w : Waiting) (t : Text) :
    Waiting.run c w (separator.replace (fun _ => separatorText) t) = Waiting.run c w t := by
  have hblank := isBlank_of_bracket hc
  have hcomma : ',' ≠ c := by rcases hc with rfl | rfl <;> decide
  refine matches_separator.replace_induction advances_separator _
    (Q := fun t u => ∀ w, Waiting.run c w u = Waiting.run c w t) (fun _ => rfl)
    (fun x t u _ ih => Waiting.run_cons_congr ih x) ?_ t w
  rintro _ t u ⟨b, b', hb, hb', rfl⟩ ih w
  calc Waiting.run c w (']' :: ',' :: '[' :: u)
      = Waiting.run c w (']' :: ',' :: '[' :: t) :=
        Waiting.run_cons_congr (Waiting.run_cons_congr (Waiting.run_cons_congr ih '[') ',') ']' w
    _ = Waiting.run c w (']' :: ',' :: (b' ++ '[' :: t)) :=
        Waiting.run_cons_congr (fun w =>
          (Waiting.run_draw hblank (by decide) (by decide) (.inl hcomma) hb' w t).symm) ']' w
    _ = Waiting.run c w (']' :: (b ++ ',' :: (b' ++ '[' :: t))) :=
        (Waiting.run_draw hblank (by decide) (by decide) (.inr hcomma) hb w _).symm
    _ = Waiting.run c w (']' :: (b ++ ',' :: b') ++ ['['] ++ t) := by simp

/-- A normal literal has no blanks in the pairs of either bracket. -/
theorem isTight_normalize (hc : c = '[' ∨ c = ']') (literal : Text) : IsTight c (normalize literal) := by
  have hnormal : normalize literal = separator.replace (fun _ => separatorText)
      (drawTogether ']' (drawTogether '[' literal)) := rfl
  rw [hnormal, IsTight, run_separators hc]
  rcases hc with rfl | rfl
  · rw [run_drawTogether (by decide) (by decide) (by decide)]
    exact isTight_drawTogether (by decide) literal
  · exact isTight_drawTogether (by decide) (drawTogether '[' literal)

/-! ## Reading again -/

theorem isTight_trim_normalize (hc : c = '[' ∨ c = ']') (literal : Text) :
    IsTight c (normalize literal).trim := by
  obtain ⟨x, y, hx, -, htrim⟩ := Text.exists_blanks_trim_blanks (normalize literal)
  have htight := isTight_normalize hc literal
  rw [htrim] at htight
  have hback := htight.of_append
  rwa [IsTight, Waiting.run_free_append (Volume.notMem_of_isAllBlank hx (isBlank_of_bracket hc))]
    at hback

/-- Behind the inside of a literal there is room for the brackets that close a list. -/
theorem isTight_inside_append (literal : Text) : IsTight ']' (inside literal ++ [']', ']']) := by
  obtain ⟨n, hn, hinside⟩ := exists_inside literal
  have hfront : ']' ∉ List.replicate n '[' := fun h =>
    absurd (List.eq_of_mem_replicate h) (by decide)
  have hclosed : IsTight ']' (inside literal ++ List.replicate n ']') := by
    have htight := isTight_trim_normalize (.inr rfl) literal
    rwa [hinside, List.append_assoc, IsTight, Waiting.run_free_append hfront] at htight
  have hlast : ∀ d ∈ (inside literal ++ List.replicate n ']').getLast?, isBlank d = false := by
    intro d hd
    refine Text.isBlank_getLast?_trim (t := normalize literal) d ?_
    rw [hinside, List.append_assoc, List.getLast?_append, hd]
    rfl
  -- any brackets up to the two of a list may still follow
  generalize inside literal = t at hclosed hlast
  obtain ⟨w, hw⟩ := Option.isSome_iff_exists.1 hclosed
  obtain ⟨w₁, hw₁, hfar₁⟩ := Waiting.exists_run_concat hw (Waiting.ne_far_of_run hw hlast)
  obtain ⟨w₂, hw₂, -⟩ := Waiting.exists_run_concat hw₁ hfar₁
  rw [List.append_assoc] at hw₁ hw₂
  obtain rfl | rfl | rfl : n = 0 ∨ n = 1 ∨ n = 2 := by omega
  · exact Option.isSome_iff_exists.2 ⟨w₂, by simpa using hw₂⟩
  · exact Option.isSome_iff_exists.2 ⟨w₁, hw₁⟩
  · exact hclosed

theorem toLiteral_splitOn (t : Text) :
    toLiteral ⟨Text.splitOn separatorText t⟩ = ['[', '['] ++ (t ++ [']', ']']) := by
  have hne : Text.splitOn separatorText t ≠ [] := Piece.between_ne_nil _
  rw [toLiteral, if_neg hne, Text.join_splitOn, List.append_assoc]

theorem bracketPair_append_of_ne (hc : isBlank c = false) (hd : isBlank d = false) (hdc : d ≠ c)
    (s t : Text) : bracketPair c (s ++ d :: t) = bracketPair c s := by
  refine Option.ext fun ⟨_, n⟩ => ?_
  rw [matches_bracketPair hc, matches_bracketPair hc]
  constructor
  · rintro ⟨_, rest, ⟨b, hb, rfl⟩, h, rfl⟩
    have hpair : d ∉ c :: b ++ [c] := by
      simp only [List.mem_append, List.mem_cons, List.not_mem_nil, or_false, not_or]
      exact ⟨⟨hdc, Volume.notMem_of_isAllBlank hb hd⟩, hdc⟩
    obtain ⟨s', rfl, -⟩ := Text.exists_append_of_notMem hpair h
    exact ⟨_, s', ⟨b, hb, rfl⟩, rfl, rfl⟩
  · rintro ⟨f, rest, hf, rfl, rfl⟩
    exact ⟨f, rest ++ d :: t, hf, List.append_assoc f rest _, rfl⟩

/-- Two brackets in front of a text are a pair of their own. -/
theorem drawTogether_list (t : Text) :
    drawTogether '[' (['[', '['] ++ (t ++ [']', ']'])) =
      ['[', '['] ++ (drawTogether '[' t ++ [']', ']']) := by
  have hfront : bracketPair '[' (['[', '['] ++ (t ++ [']', ']'])) = some ((), ['[', '['].length) :=
    (bracketPair_eq_some_iff (by decide)).2 ⟨[], t ++ [']', ']'], rfl, rfl, rfl⟩
  have hcut : (bracketPair '[').cut (t ++ [']', ']']) =
      (bracketPair '[').cut t ++ (bracketPair '[').cut [']', ']'] :=
    Pattern.cut_append (advances_bracketPair (by decide)) fun s _ _ =>
      bracketPair_append_of_ne (by decide) (by decide) (by decide) s [']']
  rw [drawTogether, Pattern.replace_of_match _ (List.cons_ne_nil _ _) hfront, Pattern.replace, hcut,
    List.flatMap_append]
  rfl

/-- What is found inside a list that a text was split into is the text with its opening brackets drawn
together. -/
theorem inside_toLiteral_splitOn (ht : IsTight ']' (t ++ [']', ']']))
    (hes : ∀ e ∈ Text.splitOn separatorText t, ¬HasSeparator e) :
    inside (toLiteral ⟨Text.splitOn separatorText t⟩) = drawTogether '[' t := by
  have hne : Text.splitOn separatorText t ≠ [] := Piece.between_ne_nil _
  obtain ⟨es, hrereads, hne', hopened⟩ := (paired_bracketPair (.inl rfl) _).exists_toLiteral hne
  have hliteral : toLiteral ⟨es⟩ = ['[', '['] ++ (drawTogether '[' t ++ [']', ']']) := by
    rw [← hopened, toLiteral_splitOn]
    exact drawTogether_list t
  have hclosed : drawTogether ']' (toLiteral ⟨es⟩) = toLiteral ⟨es⟩ := by
    refine IsTight.drawTogether_eq (by decide) ?_
    rw [hliteral, IsTight, Waiting.run_free_append (by decide), Waiting.run_append,
      run_drawTogether (by decide) (by decide) (by decide), ← Waiting.run_append]
    exact ht
  have hjoin : Text.join separatorText es = drawTogether '[' t := by
    rw [toLiteral, if_neg hne', List.append_assoc] at hliteral
    exact List.append_cancel_right (List.append_cancel_left hliteral)
  rw [← hjoin]
  exact inside_toLiteral hopened hclosed (not_hasSeparator_of_rereads hrereads hes) hne'

theorem Drawn.isAllBlank_eq {u : Text} (h : Drawn t u) : isAllBlank u = isAllBlank t := by
  induction h with
  | nil => rfl
  | cons d _ ih => exact congrArg (isBlank d && ·) ih
  | draw hc _ _ _ _ => simp [isAllBlank, isBlank_of_isJoint hc]

theorem isAllBlank_drawTogether (t : Text) : isAllBlank (drawTogether '[' t) = isAllBlank t :=
  (drawn_bracketPair (by decide) t).isAllBlank_eq

theorem parse_of_isAllBlank_inside (h : isAllBlank (inside literal) = true) : parse literal = ⟨[]⟩ := by
  rw [parse, h]
  rfl

theorem parse_of_not_isAllBlank (h : isAllBlank (inside literal) = false) :
    parse literal = ⟨Text.splitOn separatorText (inside literal)⟩ := by
  rw [parse, h]
  rfl

/-- What is found inside a list that was read, when it is written. -/
theorem inside_toLiteral_parse (h : isAllBlank (inside literal) = false) :
    inside (parse literal).toLiteral = drawTogether '[' (inside literal) := by
  have hes : ∀ e ∈ (parse literal).entries, ¬HasSeparator e := fun _ => not_hasSeparator_of_mem_parse
  rw [parse_of_not_isAllBlank h] at hes ⊢
  have htight := isTight_inside_append literal
  generalize inside literal = t at htight hes
  exact inside_toLiteral_splitOn htight hes

theorem parse_toLiteral_of_not_isAllBlank (h : isAllBlank (inside literal) = false) :
    parse (parse literal).toLiteral =
      ⟨Text.splitOn separatorText (drawTogether '[' (inside literal))⟩ := by
  have hinside := inside_toLiteral_parse h
  have hblank : isAllBlank (inside (parse literal).toLiteral) = false := by
    rw [hinside, isAllBlank_drawTogether, h]
  rw [parse_of_not_isAllBlank hblank, hinside]

theorem splitOn_inj {u : Text} (h : Text.splitOn separatorText t = Text.splitOn separatorText u) :
    t = u := by
  rw [← Text.join_splitOn separatorText t, h, Text.join_splitOn]

/-- A list comes back exactly if its opening brackets are drawn together as they stand in it. -/
theorem parse_toLiteral_eq_iff (literal : Text) :
    parse (parse literal).toLiteral = parse literal ↔ IsTight '[' (inside literal) := by
  cases h : isAllBlank (inside literal) with
  | true =>
    have htight : IsTight '[' (inside literal) := by
      rw [← List.append_nil (inside literal), IsTight,
        Waiting.run_free_append (Volume.notMem_of_isAllBlank h (by decide))]
      rfl
    rw [parse_of_isAllBlank_inside h]
    exact iff_of_true (by decide) htight
  | false =>
    rw [parse_toLiteral_of_not_isAllBlank h, parse_of_not_isAllBlank h,
      ← drawTogether_eq_self_iff (by decide), PodList.mk.injEq]
    exact ⟨splitOn_inj, congrArg _⟩

/-- Where no single pair of brackets is taken off, the opening brackets inside are drawn together as in
the literal itself. -/
theorem isTight_inside (h : (normalize literal).trim ≠ bracketed (inside literal)) :
    IsTight '[' (inside literal) := by
  obtain ⟨n, hn, hinside⟩ := exists_inside literal
  have htight := isTight_trim_normalize (.inl rfl) literal
  rw [hinside] at htight h
  have hopened := htight.of_append
  generalize inside literal = t at h hopened ⊢
  obtain rfl | rfl | rfl : n = 0 ∨ n = 1 ∨ n = 2 := by omega
  · exact hopened
  · exact absurd rfl h
  · exact ((isTight_pair (b := []) (by decide) rfl t).1 hopened).2

/-- A list that was written and read again is read again as it is. -/
theorem parse_toLiteral_parse_toLiteral (literal : Text) :
    parse (parse (parse literal).toLiteral).toLiteral = parse (parse literal).toLiteral := by
  cases h : isAllBlank (inside literal) with
  | true =>
    rw [parse_of_isAllBlank_inside h]
    decide
  | false =>
    rw [parse_toLiteral_eq_iff, inside_toLiteral_parse h]
    exact isTight_drawTogether (by decide) _

/-- A list is read back from its own literal exactly if drawing its opening brackets together once more
leaves its inside as it is.  This may fail only where a single pair of brackets was taken off, and it
holds from the second reading on. -/
theorem parse_toLiteral_settles (literal : Text) :
    (parse (parse literal).toLiteral = parse literal ↔
      drawTogether '[' (inside literal) = inside literal) ∧
    ((normalize literal).trim = bracketed (inside literal) ∨
      parse (parse literal).toLiteral = parse literal) ∧
    parse (parse (parse literal).toLiteral).toLiteral = parse (parse literal).toLiteral := by
  refine ⟨?_, ?_, parse_toLiteral_parse_toLiteral literal⟩
  · rw [parse_toLiteral_eq_iff, drawTogether_eq_self_iff (by decide)]
  · by_cases h : (normalize literal).trim = bracketed (inside literal)
    · exact .inl h
    · exact .inr ((parse_toLiteral_eq_iff literal).2 (isTight_inside h))

/-- Of three brackets the first two are drawn together, and the last two when a pair is taken off and
put back. -/
theorem not_parse_toLiteral_eq_of_three_brackets :
    (parse "[ [ [a] ] ]".toList).entries = ["[ [a]] ".toList] ∧
      (parse (parse "[ [ [a] ] ]".toList).toLiteral).entries = ["[[a]] ".toList] ∧
      ¬parse (parse "[ [ [a] ] ]".toList).toLiteral = parse "[ [ [a] ] ]".toList := by
  decide +kernel

/-! ## Entries without brackets -/

/-- Every layout of a list is read as its entries, written with nothing between its brackets and commas,
and read from that as its entries again. -/
theorem entries_parse_of_isLayout (h : IsLayout es literal) (hes : ∀ e ∈ es, IsBracketFree e)
    (hblank : ∀ e, es = [e] → isAllBlank e = false) :
    (parse literal).entries = es ∧
      (parse literal).toLiteral = bracketed (Text.join [','] (es.map bracketed)) ∧
      (parse (parse literal).toLiteral).entries = es := by
  rw [parse_eq_of_isLayout h hes hblank, parse_toLiteral hes hblank]
  refine ⟨rfl, ?_, rfl⟩
  cases es with
  | nil => rfl
  | cons e es => exact toLiteral_eq_bracketed (List.cons_ne_nil e es)

theorem entries_parse_of_isLayout_spaced :
    IsLayout ["a:'1'".toList, [], " b ".toList] " [\n[a:'1'] , [],\t[ b ] ]\n".toList ∧
      (parse " [\n[a:'1'] , [],\t[ b ] ]\n".toList).entries =
        ["a:'1'".toList, [], " b ".toList] ∧
      (parse " [\n[a:'1'] , [],\t[ b ] ]\n".toList).toLiteral =
        "[[a:'1'],[],[ b ]]".toList ∧
      (parse (parse " [\n[a:'1'] , [],\t[ b ] ]\n".toList).toLiteral).entries =
        ["a:'1'".toList, [], " b ".toList] := by
  have hlayout : IsLayout ["a:'1'".toList, [], " b ".toList] " [\n[a:'1'] , [],\t[ b ] ]\n".toList :=
    .list " ".toList "\n".toList " ".toList "\n".toList (by decide) (by decide) (by decide) (by decide)
      (.cons "a:'1'".toList " ".toList " ".toList (by decide) (by decide)
        (.cons [] [] "\t".toList (by decide) (by decide) (.single " b ".toList)))
  have hread := entries_parse_of_isLayout hlayout (by decide) (by simp)
  exact ⟨hlayout, hread.1, hread.2.1, hread.2.2⟩

end PodList
end HeadJob
