import HeadJob.Config.PodList
import HeadJob.Proofs.Config.Scan
import HeadJob.Proofs.Volume.Record

/-!
What is left of a list literal when a volume is put into it.

Drawing a literal together drops blanks between its joints only.  So nothing is lost that keeps its
joints apart, as a record does, and a scan meets the same characters, but for blanks.
-/

namespace HeadJob
namespace PodList

open Text (isBlank isAllBlank)

variable {c : Char} {t u : Text}

/-! ## What the rewritings match -/

theorem bracketPair_eq_some_iff (hc : isBlank c = false) {n : Nat} :
    bracketPair c t = some ((), n) ↔
      ∃ b rest, isAllBlank b = true ∧ t = c :: (b ++ c :: rest) ∧ n = b.length + 2 := by
  rw [bracketPair, Pattern.ofReader_eq_some_iff]
  constructor
  · rintro ⟨rest, hread, rfl⟩
    split at hread
    · cases hread
    · split at hread
      · next hd =>
        obtain ⟨x, hx, heq⟩ := Option.map_eq_some_iff.1 hread
        cases heq
        obtain ⟨b, hb, rfl⟩ := (Volume.dropChar?_eq_some_iff hc).1 hx
        refine ⟨b, rest, hb, by rw [hd], ?_⟩
        simp only [List.length_cons, List.length_append]
        omega
      · cases hread
  · rintro ⟨b, rest, hb, rfl, rfl⟩
    refine ⟨rest, ?_, ?_⟩
    · simp only [if_true]
      rw [(Volume.dropChar?_eq_some_iff hc).2 ⟨b, hb, rfl⟩]
      rfl
    · simp only [List.length_cons, List.length_append]
      omega

theorem separator_eq_some_iff {n : Nat} :
    separator t = some ((), n) ↔
      ∃ b b' rest, isAllBlank b = true ∧ isAllBlank b' = true ∧
        t = ']' :: (b ++ ',' :: (b' ++ '[' :: rest)) ∧ n = b.length + b'.length + 3 := by
  rw [separator, Pattern.ofReader_eq_some_iff]
  constructor
  · rintro ⟨rest, hread, rfl⟩
    split at hread
    · simp only [Option.bind_eq_bind, Option.bind_eq_some_iff,
        Volume.dropChar?_eq_some_iff (show isBlank ',' = false by decide),
        Volume.dropChar?_eq_some_iff (show isBlank '[' = false by decide)] at hread
      obtain ⟨_, ⟨b, hb, rfl⟩, _, ⟨b', hb', rfl⟩, heq⟩ := hread
      cases heq
      refine ⟨b, b', rest, hb, hb', rfl, ?_⟩
      simp only [List.length_cons, List.length_append]
      omega
    · cases hread
  · rintro ⟨b, b', rest, hb, hb', rfl, rfl⟩
    refine ⟨rest, ?_, ?_⟩
    · simp only [Option.bind_eq_bind, Option.bind_eq_some_iff,
        Volume.dropChar?_eq_some_iff (show isBlank ',' = false by decide),
        Volume.dropChar?_eq_some_iff (show isBlank '[' = false by decide)]
      exact ⟨_, ⟨b, hb, rfl⟩, rest, ⟨b', hb', rfl⟩, rfl⟩
    · simp only [List.length_cons, List.length_append]
      omega

theorem advances_bracketPair (hc : isBlank c = false) : (bracketPair c).Advances := by
  rintro t ⟨⟩ n h
  obtain ⟨b, rest, -, rfl, rfl⟩ := (bracketPair_eq_some_iff hc).1 h
  simp only [List.length_cons, List.length_append]
  omega

theorem advances_separator : separator.Advances := by
  rintro t ⟨⟩ n h
  obtain ⟨b, b', rest, -, -, rfl, rfl⟩ := separator_eq_some_iff.1 h
  simp only [List.length_cons, List.length_append]
  omega

theorem matches_bracketPair (hc : isBlank c = false) :
    (bracketPair c).Matches fun f => ∃ b, isAllBlank b = true ∧ f = c :: b ++ [c] := by
  intro t n
  rw [bracketPair_eq_some_iff hc]
  constructor
  · rintro ⟨b, rest, hb, rfl, rfl⟩
    exact ⟨_, rest, ⟨b, hb, rfl⟩, by simp, by simp⟩
  · rintro ⟨_, rest, ⟨b, hb, rfl⟩, rfl, rfl⟩
    exact ⟨b, rest, hb, by simp, by simp⟩

theorem matches_separator :
    separator.Matches fun f =>
      ∃ b b', isAllBlank b = true ∧ isAllBlank b' = true ∧ f = ']' :: (b ++ ',' :: b') ++ ['['] := by
  intro t n
  rw [separator_eq_some_iff]
  constructor
  · rintro ⟨b, b', rest, hb, hb', rfl, rfl⟩
    refine ⟨_, rest, ⟨b, b', hb, hb', rfl⟩, by simp, ?_⟩
    simp only [List.length_append, List.length_cons, List.length_nil]
    omega
  · rintro ⟨_, rest, ⟨b, b', hb, hb', rfl⟩, rfl, rfl⟩
    refine ⟨b, b', rest, hb, hb', by simp, ?_⟩
    simp only [List.length_append, List.length_cons, List.length_nil]
    omega

/-! ## What drawing together leaves -/

/-- The characters that a literal is drawn together at. -/
def isJoint (c : Char) : Bool := c == '[' || c == ']' || c == ','

theorem eq_of_isJoint {c : Char} (h : isJoint c = true) : c = '[' ∨ c = ']' ∨ c = ',' := by
  simpa [isJoint, or_assoc] using h

theorem isBlank_of_isJoint {c : Char} (h : isJoint c = true) : isBlank c = false := by
  rcases eq_of_isJoint h with rfl | rfl | rfl <;> decide

/-- The second text is the first without some of the blanks between its joints. -/
inductive Drawn : Text → Text → Prop
  | nil : Drawn [] []
  | cons (c : Char) {t u : Text} (h : Drawn t u) : Drawn (c :: t) (c :: u)
  | draw {c d : Char} {b t u : Text} (hc : isJoint c = true) (hd : isJoint d = true)
      (hb : isAllBlank b = true) (h : Drawn (d :: t) (d :: u)) :
      Drawn (c :: (b ++ d :: t)) (c :: d :: u)

theorem drawn_bracketPair (hc : isJoint c = true) (t : Text) :
    Drawn t ((bracketPair c).replace (fun _ => [c, c]) t) := by
  have hblank := isBlank_of_isJoint hc
  refine (matches_bracketPair hblank).replace_induction (advances_bracketPair hblank) _ .nil
    (fun d t u _ h => h.cons d) ?_ t
  rintro _ t u ⟨b, hb, rfl⟩ h
  simpa using Drawn.draw hc hc hb (h.cons c)

theorem drawn_separator (t : Text) : Drawn t (separator.replace (fun _ => separatorText) t) := by
  refine matches_separator.replace_induction advances_separator _ .nil (fun d t u _ h => h.cons d)
    ?_ t
  rintro _ t u ⟨b, b', hb, hb', rfl⟩ h
  have hcomma := Drawn.draw (c := ',') (by decide) (by decide) hb' (h.cons '[')
  simpa [separatorText] using Drawn.draw (c := ']') (by decide) (by decide) hb hcomma

/-- What drawing texts together keeps is kept by `normalize`. -/
theorem normalize_induction {Q : Text → Text → Prop} (hdrawn : ∀ {t u}, Drawn t u → Q t u)
    (htrans : ∀ {t u w}, Q t u → Q u w → Q t w) (literal : Text) : Q literal (normalize literal) :=
  htrans (htrans (hdrawn (drawn_bracketPair (by decide) _)) (hdrawn (drawn_bracketPair (by decide) _)))
    (hdrawn (drawn_separator _))

namespace Drawn

theorem sublist (h : Drawn t u) : u.Sublist t := by
  induction h with
  | nil => exact List.Sublist.refl _
  | cons c _ ih => exact ih.cons_cons c
  | draw _ _ _ _ ih => exact (ih.trans (List.sublist_append_right _ _)).cons_cons _

end Drawn

/-! ## What keeps its joints apart -/

/-- No two joints of the text have nothing but blanks between them. -/
def isApart : Text → Bool
  | [] => true
  | c :: t => (!isJoint c || (Text.trimStart t).head?.all (!isJoint ·)) && isApart t

theorem isApart_cons {c : Char} {t : Text} :
    isApart (c :: t) = true ↔
      (isJoint c = true → ∀ d ∈ (Text.trimStart t).head?, isJoint d = false) ∧ isApart t = true := by
  rw [isApart, Bool.and_eq_true]
  refine and_congr_left fun _ => ?_
  cases isJoint c <;> simp [Option.all_eq_true]

theorem isApart_append {s : Text} (hs : ∀ c ∈ s, isJoint c = false) (t : Text) :
    isApart (s ++ t) = isApart t := by
  induction s with
  | nil => rfl
  | cons c s ih =>
    rw [List.cons_append, isApart, hs c List.mem_cons_self,
      ih fun d hd => hs d (List.mem_cons_of_mem c hd)]
    simp

/-- Joints stay apart if something else stands behind the first. -/
theorem isApart_cons_append {c : Char} {g : Text} (hg : ∀ d ∈ g, isJoint d = false)
    (hne : isAllBlank g = false) (t : Text) : isApart (c :: (g ++ t)) = isApart t := by
  have hhead : ∀ d ∈ (g ++ t).trimStart.head?, isJoint d = false := by
    intro d hd
    have hne' : g.trimStart ≠ [] := fun h => by
      rw [Text.trimStart_eq_nil_iff.1 h] at hne
      cases hne
    obtain ⟨b, hb, hbt⟩ := Text.exists_blanks_append_trimStart g
    rw [← hbt, List.append_assoc, Text.trimStart_append_of_isAllBlank hb,
      Text.trimStart_append (Text.trimStart_trimStart g) hne', List.head?_append_of_ne_nil _ hne'] at hd
    refine hg d ?_
    rw [← hbt]
    exact List.mem_append_right b (List.mem_of_mem_head? hd)
  rw [Bool.eq_iff_iff, isApart_cons, isApart_append hg]
  exact and_iff_right fun _ => hhead

theorem forall_getLast?_tail {c : Char} {s : Text} {p : Char → Prop}
    (h : ∀ d ∈ (c :: s).getLast?, p d) : ∀ d ∈ s.getLast?, p d := by
  cases s with
  | nil => exact fun d hd => nomatch hd
  | cons e s => rwa [List.getLast?_cons_cons] at h

theorem eq_nil_of_isAllBlank {s : Text} (hlast : ∀ c ∈ s.getLast?, isBlank c = false)
    (hs : isAllBlank s = true) : s = [] := by
  cases h : s.getLast? with
  | none => exact List.getLast?_eq_none_iff.1 h
  | some c =>
    have hblank := List.all_eq_true.1 hs c (List.mem_of_getLast? h)
    rw [hlast c h] at hblank
    cases hblank

/-- Where a text begins with joints that are apart it is not drawn together. -/
theorem Drawn.exists_append (h : Drawn t u) {s rest : Text} (hs : isApart s = true)
    (hlast : ∀ c ∈ s.getLast?, isBlank c = false) (ht : t = s ++ rest) :
    ∃ rest', u = s ++ rest' := by
  induction h generalizing s rest with
  | nil =>
    rw [List.nil_eq, List.append_eq_nil_iff] at ht
    exact ⟨[], by rw [ht.1]; rfl⟩
  | @cons c t u _ ih =>
    cases s with
    | nil => exact ⟨c :: u, rfl⟩
    | cons d s =>
      injection ht with hc ht
      obtain ⟨rest', rfl⟩ := ih (isApart_cons.1 hs).2 (forall_getLast?_tail hlast) ht
      exact ⟨rest', by rw [hc]; rfl⟩
  | @draw c d b t u hc hd hb _ _ =>
    cases s with
    | nil => exact ⟨c :: d :: u, rfl⟩
    | cons e s =>
      injection ht with he ht
      subst he
      rcases List.append_eq_append_iff.1 ht with ⟨x, rfl, hx⟩ | ⟨x, rfl, hx⟩
      · cases x with
        | nil =>
          rw [List.append_nil] at hlast
          rw [eq_nil_of_isAllBlank (forall_getLast?_tail hlast) hb]
          exact ⟨d :: u, rfl⟩
        | cons e x =>
          injection hx with he _
          subst he
          have happart := (isApart_cons.1 hs).1 hc d
          rw [Text.trimStart_append_of_isAllBlank hb,
            Text.trimStart_cons (isBlank_of_isJoint hd), hd] at happart
          exact absurd (happart rfl) (by decide)
      · rw [Text.isAllBlank_append, Bool.and_eq_true] at hb
        rw [eq_nil_of_isAllBlank (forall_getLast?_tail hlast) hb.1]
        exact ⟨d :: u, rfl⟩

/-- A text in brackets that is not changed when what it stands in is drawn together. -/
structure IsFirm (r : Text) : Prop where
  apart : isApart r = true
  brackets : ∃ m, r = '[' :: (m ++ [']'])

variable {r : Text}

theorem IsFirm.ne_nil (hr : IsFirm r) : r ≠ [] := by
  obtain ⟨m, rfl⟩ := hr.brackets
  exact List.cons_ne_nil _ _

theorem IsFirm.last (hr : IsFirm r) : ∀ c ∈ r.getLast?, isBlank c = false := by
  obtain ⟨m, rfl⟩ := hr.brackets
  intro c hc
  rw [← List.cons_append, List.getLast?_concat] at hc
  cases hc
  decide

/-- A firm text behind blanks takes none of them in. -/
theorem IsFirm.exists_append_of_blanks (hr : IsFirm r) {x a b : Text} (hx : isAllBlank x = true)
    (h : x ++ t = a ++ (r ++ b)) : ∃ a', t = a' ++ r ++ b := by
  rcases List.append_eq_append_iff.1 h with ⟨y, -, hy⟩ | ⟨y, rfl, hy⟩
  · exact ⟨y, by rw [hy, List.append_assoc]⟩
  · cases y with
    | nil => exact ⟨[], hy.symm⟩
    | cons e y =>
      obtain ⟨m, rfl⟩ := hr.brackets
      injection hy with hc _
      have hblank := List.all_eq_true.1 hx e (by simp)
      rw [← hc] at hblank
      exact absurd hblank (by decide)

theorem IsFirm.exists_append_of_blanks_end (hr : IsFirm r) {y a b : Text}
    (hy : isAllBlank y = true) (h : t ++ y = a ++ r ++ b) : ∃ b', t = a ++ r ++ b' := by
  rcases List.append_eq_append_iff.1 h with ⟨z, hz, rfl⟩ | ⟨z, rfl, -⟩
  · rw [Text.isAllBlank_append, Bool.and_eq_true] at hy
    have hlast : ∀ c ∈ z.getLast?, isBlank c = false := by
      intro c hc
      have hc' := congrArg List.getLast? hz
      rw [List.getLast?_append, List.getLast?_append, hc,
        List.getLast?_eq_some_getLast hr.ne_nil] at hc'
      exact hr.last c (by rw [List.getLast?_eq_some_getLast hr.ne_nil]; exact hc')
    rw [eq_nil_of_isAllBlank hlast hy.1, List.append_nil] at hz
    exact ⟨[], by rw [← hz, List.append_nil]⟩
  · exact ⟨z, rfl⟩

theorem Drawn.exists_infix (h : Drawn t u) (hr : IsFirm r) {a b : Text} (ht : t = a ++ r ++ b) :
    ∃ a' b', u = a' ++ r ++ b' := by
  have hstart : ∀ {t u}, Drawn t u → t = r ++ b → ∃ a' b', u = a' ++ r ++ b' := by
    intro t u h ht
    obtain ⟨b', rfl⟩ := h.exists_append hr.apart hr.last ht
    exact ⟨[], b', rfl⟩
  induction h generalizing a with
  | nil =>
    rw [List.nil_eq, List.append_eq_nil_iff, List.append_eq_nil_iff] at ht
    exact absurd ht.1.2 hr.ne_nil
  | cons c h ih =>
    cases a with
    | nil => exact hstart (h.cons c) ht
    | cons d a =>
      injection ht with _ ht
      obtain ⟨a', b', rfl⟩ := ih ht
      exact ⟨c :: a', b', rfl⟩
  | @draw c d x t u hc hd hx h ih =>
    cases a with
    | nil => exact hstart (.draw hc hd hx h) ht
    | cons e a =>
      injection ht with _ ht
      obtain ⟨a₀, ha₀⟩ := hr.exists_append_of_blanks (a := a) hx (by simpa using ht)
      obtain ⟨a', b', hu⟩ := ih ha₀
      exact ⟨c :: a', b', by rw [hu]; rfl⟩

/-! ## The inside of a literal -/

theorem between?_eq_some_iff {opening closing t inner : Text} :
    between? opening closing t = some inner ↔ t = opening ++ inner ++ closing := by
  rw [between?, Option.bind_eq_bind, Option.bind_eq_some_iff]
  simp only [Text.dropPrefix?_eq_some_iff, Text.dropSuffix?_eq_some_iff]
  constructor
  · rintro ⟨_, rfl, rfl⟩
    rw [List.append_assoc]
  · rintro rfl
    exact ⟨_, List.append_assoc _ _ _, rfl⟩

/-- A drawn literal is its inside between as many opening as closing brackets, two at most. -/
theorem exists_inside (literal : Text) :
    ∃ n ≤ 2, (normalize literal).trim =
      List.replicate n '[' ++ inside literal ++ List.replicate n ']' := by
  unfold inside
  dsimp only
  split
  · next inner h => exact ⟨2, le_rfl, between?_eq_some_iff.1 h⟩
  · cases h : between? ['['] [']'] (normalize literal).trim with
    | none => exact ⟨0, by omega, by simp⟩
    | some inner => exact ⟨1, by omega, between?_eq_some_iff.1 h⟩

theorem isApart_of_append {s : Text} (h : isApart (s ++ t) = true) : isApart t = true := by
  induction s with
  | nil => exact h
  | cons c s ih => exact ih (isApart_cons.1 h).2

/-- What stands firm in a literal stands in its inside, with the brackets that it needs around. -/
theorem IsFirm.exists_infix_inside (hr : IsFirm r) {literal a b : Text}
    (h : literal = a ++ r ++ b) :
    ∃ a' b', '[' :: '[' :: (inside literal ++ [']']) = a' ++ r ++ b' := by
  obtain ⟨a₁, b₁, hnormal⟩ := normalize_induction
    (Q := fun t u => ∀ a b, t = a ++ r ++ b → ∃ a' b', u = a' ++ r ++ b')
    (fun h a b ht => h.exists_infix hr ht)
    (fun h₁ h₂ a b ht => by
      obtain ⟨a', b', hu⟩ := h₁ a b ht
      exact h₂ a' b' hu) literal a b h
  obtain ⟨x, y, hx, hy, htrim⟩ := Text.exists_blanks_trim_blanks (normalize literal)
  obtain ⟨n, hn, hinside⟩ := exists_inside literal
  rw [hinside, hnormal, List.append_assoc a₁, List.append_assoc x] at htrim
  obtain ⟨a₂, h₂⟩ := hr.exists_append_of_blanks hx htrim.symm
  obtain ⟨b₂, h₃⟩ := hr.exists_append_of_blanks_end hy h₂
  generalize inside literal = t at h₃ ⊢
  obtain rfl | rfl | rfl : n = 0 ∨ n = 1 ∨ n = 2 := by omega
  · rw [show t = a₂ ++ r ++ b₂ by simpa using h₃]
    exact ⟨'[' :: '[' :: a₂, b₂ ++ [']'], by simp⟩
  · exact ⟨'[' :: a₂, b₂, by simpa using h₃⟩
  · -- two closing brackets in a row are not the end of a firm text
    obtain ⟨m, rfl⟩ := hr.brackets
    have hcut : ('[' :: '[' :: (t ++ [']'])) ++ [']'] =
        a₂ ++ '[' :: (m ++ [']']) ++ b₂ := by
      simpa using h₃
    rcases List.eq_nil_or_concat b₂ with rfl | ⟨b₃, c, rfl⟩
    · have hend : '[' :: '[' :: (t ++ [']']) = a₂ ++ '[' :: m := by
        have hcut' : ('[' :: '[' :: (t ++ [']'])) ++ [']'] =
            (a₂ ++ '[' :: m) ++ [']'] := by
          simpa using hcut
        exact List.append_cancel_right hcut'
      rcases List.eq_nil_or_concat m with rfl | ⟨m, c, rfl⟩
      · have hlast := congrArg List.getLast? hend
        rw [← List.cons_append, ← List.cons_append, List.getLast?_concat,
          List.getLast?_concat] at hlast
        exact absurd hlast (by decide)
      · have hlast := congrArg List.getLast? hend
        rw [List.concat_eq_append, ← List.cons_append, ← List.cons_append, ← List.cons_append,
          ← List.append_assoc, List.getLast?_concat, List.getLast?_concat] at hlast
        have happart := hr.apart
        rw [← Option.some.inj hlast, List.concat_eq_append, List.append_assoc,
          ← List.cons_append] at happart
        exact absurd (isApart_of_append happart) (by decide)
    · refine ⟨a₂, b₃, ?_⟩
      rw [List.concat_eq_append, ← List.append_assoc] at hcut
      exact (List.append_inj' hcut rfl).1

/-! ## Putting a volume in -/

variable {v w : Volume} {literal : Text}

/-- What stands in front of a volume that is put into a list. -/
def front (literal : Text) : Text :=
  if isAllBlank (inside literal) then [] else inside literal ++ separatorText

theorem toLiteral_merge (h : (parse literal).holds v = false) :
    ((parse literal).merge v).toLiteral =
      ['[', '['] ++ (front literal ++ v.entry) ++ [']', ']'] := by
  have hjoin : Text.join separatorText ((parse literal).entries ++ [v.entry]) =
      front literal ++ v.entry := by
    rw [front]
    by_cases hblank : isAllBlank (inside literal) = true
    · simp only [parse, hblank, if_true, List.nil_append]
      exact List.intercalate_singleton
    · have hne : Text.splitOn separatorText (inside literal) ≠ [] := Piece.between_ne_nil _
      simp only [parse, hblank, if_false, Bool.false_eq_true]
      rw [Text.join_concat _ hne, Text.join_splitOn]
  rw [merge, if_neg (by simp [h]), toLiteral, if_neg (by simp), hjoin]

theorem isRecord_entry (hclaim : Volume.IsString v.claim) (hpath : Volume.IsString v.path) :
    v.IsRecord ('[' :: (v.entry ++ [']'])) := by
  have hclaimLabel : Volume.IsLabel "volumeclaim".toList ("volumeClaim".toList ++ [':']) :=
    .intro [] "volumeClaim".toList [] [] rfl (by decide) rfl rfl
  have hpathLabel : Volume.IsLabel "mountpath".toList ([' '] ++ "mountPath".toList ++ [':']) :=
    .intro [' '] "mountPath".toList [] [] rfl (by decide) rfl rfl
  have hrecord := Volume.IsRecord.intro (v := v) _ [] _ [] '\'' '\'' '\'' '\'' hclaimLabel rfl hclaim
    rfl rfl hpathLabel rfl hpath rfl rfl
  -- with the words as variables nothing tries to compute them
  have hspelled : ∀ x y p q s : Text, p = x ++ [':', '\''] → q = y ++ [':', '\''] → s = [',', ' '] →
      '[' :: ((p ++ v.claim ++ ['\''] ++ s ++ (q ++ v.path ++ ['\''])) ++ [']']) =
        '[' :: ((x ++ [':']) ++ '\'' :: (v.claim ++ '\'' :: ([] ++ ',' ::
          (([' '] ++ y ++ [':']) ++ '\'' :: (v.path ++ '\'' :: ([] ++ [']'])))))) := by
    rintro x y _ _ _ rfl rfl rfl
    simp
  exact (congrArg v.IsRecord (hspelled _ _ _ _ _ (by decide) (by decide) (by decide))).mpr hrecord

theorem isJoint_of_mem_label {name g : Text} (hname : Volume.IsName name)
    (hg : Volume.IsLabel name g) : ∀ c ∈ g, isJoint c = false := by
  intro c hc
  by_contra h
  rcases eq_of_isJoint (by simpa using h) with rfl | rfl | rfl <;>
    exact hg.notMem hname (by decide) (by decide) (by decide) hc

/-- A string of names, with its quote marks and blanks behind it, holds no joint. -/
theorem isJoint_of_mem_string {q q' : Char} {s b : Text} (hq : Volume.isQuoteMark q = true)
    (hs : ∀ c ∈ s, Volume.isNameChar c = true) (hq' : Volume.isQuoteMark q' = true)
    (hb : isAllBlank b = true) : ∀ c ∈ q :: (s ++ q' :: b), isJoint c = false := by
  intro c hc
  by_contra h
  have hjoint : isJoint c = true := by simpa using h
  simp only [List.mem_cons, List.mem_append] at hc
  rcases hc with rfl | hc | rfl | hc
  · rcases eq_of_isJoint hjoint with rfl | rfl | rfl <;> exact absurd hq (by decide)
  · have hname := hs c hc
    rcases eq_of_isJoint hjoint with rfl | rfl | rfl <;> exact absurd hname (by decide)
  · rcases eq_of_isJoint hjoint with rfl | rfl | rfl <;> exact absurd hq' (by decide)
  · exact Volume.notMem_of_isAllBlank hb (isBlank_of_isJoint hjoint) hc

theorem isFirm_of_isRecord (hv : v.IsPlain) {r : Text} (hr : v.IsRecord r) : IsFirm r := by
  obtain ⟨g, b, m, b', q₁, q₂, q₃, q₄, hg, hq₁, hclaim, hq₂, hb, hm, hq₃, hpath, hq₄, hb'⟩ := hr
  refine ⟨?_, ⟨g ++ q₁ :: (v.claim ++ q₂ :: (b ++ ',' :: (m ++ q₃ :: (v.path ++ q₄ :: b')))),
    by simp⟩⟩
  rw [isApart_cons_append (isJoint_of_mem_label Volume.isName_volumeclaim hg) hg.isAllBlank,
    show q₁ :: (v.claim ++ q₂ :: (b ++ ',' :: (m ++ q₃ :: (v.path ++ q₄ :: (b' ++ [']']))))) =
      (q₁ :: (v.claim ++ q₂ :: b)) ++ ',' :: (m ++ ((q₃ :: (v.path ++ q₄ :: b')) ++ [']'])) by simp,
    isApart_append (isJoint_of_mem_string hq₁ hv.1 hq₂ hb),
    isApart_cons_append (isJoint_of_mem_label Volume.isName_mountpath hm) hm.isAllBlank,
    isApart_append (isJoint_of_mem_string hq₃ hv.2 hq₄ hb')]
  decide

theorem isString_of_isNameChar {s : Text} (hne : s ≠ [])
    (hs : ∀ c ∈ s, Volume.isNameChar c = true) : Volume.IsString s := by
  refine ⟨hne, fun c hc => ?_⟩
  by_contra h
  simp only [Bool.not_eq_false, Volume.isQuoteMark, Bool.or_eq_true, beq_iff_eq] at h
  have hname := hs c hc
  rcases h with rfl | rfl <;> exact absurd hname (by decide)

theorem mem_records_merge (hv : v.IsPlain) (hclaim : v.claim ≠ []) (hpath : v.path ≠ [])
    (h : (parse literal).holds v = false) :
    v ∈ Volume.records ((parse literal).merge v).toLiteral := by
  have hrecord := isRecord_entry (isString_of_isNameChar hclaim hv.1)
    (isString_of_isNameChar hpath hv.2)
  rw [toLiteral_merge h, front]
  split
  · have hmem := Volume.mem_records_append hrecord hv ['['] [']']
    simpa using hmem
  · have hmem := Volume.mem_records_append hrecord hv ('[' :: '[' :: (inside literal ++ [']', ',']))
      [']']
    simpa [separatorText] using hmem

theorem mem_records_merge_of_mem (hw : w.IsPlain) (h : (parse literal).holds v = false)
    (hmem : w ∈ Volume.records literal) :
    w ∈ Volume.records ((parse literal).merge v).toLiteral := by
  obtain ⟨a, r, b, hliteral, hr⟩ := Volume.exists_of_mem_records hmem
  obtain ⟨a', b', hinside⟩ := (isFirm_of_isRecord hw hr).exists_infix_inside hliteral
  have hblank : isAllBlank (inside literal) = false := by
    -- otherwise a quote mark of the record would be a blank or a bracket
    by_contra hblank
    obtain ⟨g, _, _, _, q, _, _, _, -, hq, -, -, -, -, -, -, -, -⟩ := hr
    have hmem : q ∈ '[' :: '[' :: (inside literal ++ [']']) := by
      rw [hinside]
      simp
    simp only [List.mem_cons, List.mem_append, List.not_mem_nil, or_false] at hmem
    rcases hmem with rfl | rfl | hmem | rfl
    · exact absurd hq (by decide)
    · exact absurd hq (by decide)
    · exact Volume.notMem_of_isAllBlank (by simpa using hblank) (Volume.isBlank_of_isQuoteMark hq)
        hmem
    · exact absurd hq (by decide)
  have hliteral' : ((parse literal).merge v).toLiteral =
      a' ++ r ++ (b' ++ ",[".toList ++ v.entry ++ "]]".toList) := by
    rw [toLiteral_merge h, front, if_neg (by simp [hblank]), List.append_assoc b', List.append_assoc b',
      ← List.append_assoc _ b', ← hinside]
    simp [separatorText]
  rw [hliteral']
  exact Volume.mem_records_append hr hw _ _

end PodList
end HeadJob
