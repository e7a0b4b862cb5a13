import HeadJob.Config.PodList
import HeadJob.Proofs.Text.Split
import HeadJob.Proofs.Volume.PodList

/-!
The layouts of a list literal.

Blanks may stand around the brackets and the commas of a literal.  If no entry holds a bracket then every
bracket belongs to the list, so each of the three rewritings finds just the brackets that it is for, and
the entries come out as they stand.  A literal that was written is such a layout.
-/

namespace HeadJob

namespace Pattern

variable {α : Type} {p : Pattern α}

theorem replace_cons_of_none (f : α → Text) {c : Char} {t : Text} (h : p (c :: t) = none) :
    p.replace f (c :: t) = c :: p.replace f t := by
  rw [replace, cut_of_no_match h, List.flatMap_cons]
  rfl

theorem replace_of_match (f : α → Text) {t u : Text} {a : α} (ht : t ≠ [])
    (h : p (t ++ u) = some (a, t.length)) : p.replace f (t ++ u) = f a ++ p.replace f u := by
  rw [replace, cut_of_match (by simp [ht]) (List.length_pos_iff.2 ht) h, List.drop_left,
    List.flatMap_cons]
  rfl

/-- Every match of the pattern begins with this character. -/
def BeginsWith (p : Pattern α) (c : Char) : Prop := ∀ t, t.head? ≠ some c → p t = none

theorem BeginsWith.eq_none_append {c : Char} (hp : p.BeginsWith c) {s : Text} (hs : s ≠ [])
    (hc : c ∉ s) (t : Text) : p (s ++ t) = none := by
  refine hp _ fun h => hc ?_
  rw [List.head?_append_of_ne_nil _ hs] at h
  exact List.mem_of_head? h

theorem BeginsWith.replace_append {c : Char} (hp : p.BeginsWith c) (f : α → Text) {u : Text}
    (hu : c ∉ u) (t : Text) : p.replace f (u ++ t) = u ++ p.replace f t :=
  replace_append_of_none f fun _ hs hsuf =>
    hp.eq_none_append hs (fun hc => hu (hsuf.subset hc)) t

theorem BeginsWith.replace_eq_self {c : Char} (hp : p.BeginsWith c) (f : α → Text) {t : Text}
    (ht : c ∉ t) : p.replace f t = t := by
  have h := hp.replace_append f ht []
  rwa [List.append_nil, show p.replace f [] = [] from rfl, List.append_nil] at h

theorem BeginsWith.eq_none {c : Char} (hp : p.BeginsWith c) {s : Text} (hs : s ≠ [])
    (hc : c ∉ s) : p s = none := by
  have h := hp.eq_none_append hs hc []
  rwa [List.append_nil] at h

theorem BeginsWith.hits_eq_nil {c : Char} (hp : p.BeginsWith c) {t : Text} (ht : c ∉ t) :
    p.hits t = [] :=
  Pattern.hits_eq_nil fun _ hs hne => hp.eq_none hne fun hc => ht (hs.subset hc)

theorem BeginsWith.hits_append {c : Char} (hp : p.BeginsWith c) (hadv : p.Advances) {s : Text}
    (hs : c ∉ s) (t : Text) : p.hits (s ++ t) = p.hits t := by
  rw [Pattern.hits_append hadv fun u hu hsuf => ?_, hp.hits_eq_nil hs, List.nil_append]
  have hc : c ∉ u := fun hmem => hs (hsuf.subset hmem)
  rw [hp.eq_none hu hc, hp.eq_none_append hu hc]

end Pattern

namespace PodList

open Text (isBlank isAllBlank)

variable {c d : Char} {e t : Text} {es : List Text}

/-! ## What the rewritings match -/

theorem beginsWith_bracketPair (hc : isBlank c = false) : (bracketPair c).BeginsWith c := by
  intro t ht
  refine Option.eq_none_iff_forall_ne_some.2 fun ⟨_, n⟩ hn => ht ?_
  obtain ⟨b, rest, -, rfl, -⟩ := (bracketPair_eq_some_iff hc).1 hn
  rfl

theorem beginsWith_separator : separator.BeginsWith ']' := by
  intro t ht
  refine Option.eq_none_iff_forall_ne_some.2 fun ⟨_, n⟩ hn => ht ?_
  obtain ⟨b, b', rest, -, -, rfl, -⟩ := separator_eq_some_iff.1 hn
  rfl

/-- A text that does not hold `c`, and something else behind it, are not blanks and then `c`. -/
theorem append_ne_blanks_append (hc : c ∉ e) (hd : isBlank d = false) (hcd : c ≠ d) {b r rest : Text}
    (hb : isAllBlank b = true) : e ++ d :: r ≠ b ++ c :: rest := by
  intro h
  rcases List.append_eq_append_iff.1 h with ⟨x, rfl, hx⟩ | ⟨x, rfl, hx⟩
  · cases x with
    | nil => exact hcd (List.cons.inj hx).1.symm
    | cons f x =>
      have hblank := List.all_eq_true.1 hb f (by simp)
      rw [← (List.cons.inj hx).1, hd] at hblank
      cases hblank
  · cases x with
    | nil => exact hcd (List.cons.inj hx).1
    | cons f x => exact hc (by rw [(List.cons.inj hx).1]; simp)

theorem bracketPair_eq_none (hc : isBlank c = false) (he : c ∉ e) (hd : isBlank d = false)
    (hcd : c ≠ d) (r : Text) : bracketPair c (c :: (e ++ d :: r)) = none := by
  refine Option.eq_none_iff_forall_ne_some.2 fun ⟨_, n⟩ hn => ?_
  obtain ⟨b, rest, hb, heq, -⟩ := (bracketPair_eq_some_iff hc).1 hn
  exact append_ne_blanks_append he hd hcd hb (List.cons.inj heq).2

theorem bracketPair_eq_none_of_notMem (hc : isBlank c = false) (ht : c ∉ t) :
    bracketPair c (c :: t) = none := by
  refine Option.eq_none_iff_forall_ne_some.2 fun ⟨_, n⟩ hn => ht ?_
  obtain ⟨b, rest, -, heq, -⟩ := (bracketPair_eq_some_iff hc).1 hn
  rw [(List.cons.inj heq).2]
  simp

theorem separator_eq_none_of_notMem (ht : ',' ∉ t) : separator (c :: t) = none := by
  refine Option.eq_none_iff_forall_ne_some.2 fun ⟨_, n⟩ hn => ht ?_
  obtain ⟨b, b', rest, -, -, heq, -⟩ := separator_eq_some_iff.1 hn
  rw [(List.cons.inj heq).2]
  simp

/-! ## Layouts -/

/-- Entries with what parts them, a comma between brackets, which may stand apart. -/
inductive Spaced : List Text → Text → Prop
  | single (e : Text) : Spaced [e] e
  | cons (e b b' : Text) {es : List Text} {t : Text} (hb : isAllBlank b = true)
      (hb' : isAllBlank b' = true) (h : Spaced es t) :
      Spaced (e :: es) (e ++ ']' :: (b ++ ',' :: (b' ++ '[' :: t)))

/-- A list literal `[[e1],[e2]]` of some entries, with blanks around its brackets and commas. -/
inductive IsLayout : List Text → Text → Prop
  | nil (a b c : Text) (ha : isAllBlank a = true) (hb : isAllBlank b = true)
      (hc : isAllBlank c = true) : IsLayout [] (a ++ '[' :: (b ++ ']' :: c))
  | list (a b b' c : Text) {es : List Text} {t : Text} (ha : isAllBlank a = true)
      (hb : isAllBlank b = true) (hb' : isAllBlank b' = true) (hc : isAllBlank c = true)
      (h : Spaced es t) : IsLayout es (a ++ '[' :: (b ++ '[' :: (t ++ ']' :: (b' ++ ']' :: c))))

def IsBracketFree (t : Text) : Prop := '[' ∉ t ∧ ']' ∉ t

instance (t : Text) : Decidable (IsBracketFree t) := inferInstanceAs (Decidable (_ ∧ _))

theorem IsBracketFree.of_isAllBlank {b : Text} (hb : isAllBlank b = true) : IsBracketFree b :=
  ⟨Volume.notMem_of_isAllBlank hb (by decide), Volume.notMem_of_isAllBlank hb (by decide)⟩

namespace Spaced

theorem ne_nil (h : Spaced es t) : es ≠ [] := by
  cases h with
  | single => exact List.cons_ne_nil t []
  | cons e b b' hb hb' h => exact List.cons_ne_nil e _

/-- Behind a first entry its bracket closes. -/
theorem exists_cons (h : Spaced es t) (r : Text) : ∃ e ∈ es, ∃ r', t ++ ']' :: r = e ++ ']' :: r' := by
  cases h with
  | single => exact ⟨t, List.mem_singleton_self t, r, rfl⟩
  | cons e b b' hb hb' h => exact ⟨e, List.mem_cons_self, _, List.append_assoc e _ _⟩

theorem opening (h : Spaced es t) (hes : ∀ e ∈ es, IsBracketFree e) {r : Text} (hr : '[' ∉ r) :
    (bracketPair '[').replace (fun _ => ['[', '[']) (t ++ ']' :: r) = t ++ ']' :: r := by
  have hpair := beginsWith_bracketPair (c := '[') (by decide)
  induction h with
  | single e =>
    refine hpair.replace_eq_self _ ?_
    simp only [List.mem_append, List.mem_cons, not_or]
    exact ⟨(hes e List.mem_cons_self).1, by decide, hr⟩
  | @cons e b b' es t hb hb' h ih =>
    have hfront : '[' ∉ e ++ ']' :: (b ++ ',' :: b') := by
      simp only [List.mem_append, List.mem_cons, not_or]
      exact ⟨(hes e List.mem_cons_self).1, by decide, (IsBracketFree.of_isAllBlank hb).1, by decide,
        (IsBracketFree.of_isAllBlank hb').1⟩
    obtain ⟨f, hf, r', hr'⟩ := h.exists_cons r
    have hnone : bracketPair '[' ('[' :: (t ++ ']' :: r)) = none := by
      rw [hr']
      exact bracketPair_eq_none (by decide) (hes f (List.mem_cons_of_mem e hf)).1 (by decide)
        (by decide) r'
    have hsplit : e ++ ']' :: (b ++ ',' :: (b' ++ '[' :: t)) ++ ']' :: r =
        (e ++ ']' :: (b ++ ',' :: b')) ++ '[' :: (t ++ ']' :: r) := by
      simp
    rw [hsplit, hpair.replace_append _ hfront, Pattern.replace_cons_of_none _ hnone,
      ih fun x hx => hes x (List.mem_cons_of_mem e hx)]

theorem closing (h : Spaced es t) (hes : ∀ e ∈ es, IsBracketFree e) {b' c : Text}
    (hb' : isAllBlank b' = true) (hc : isAllBlank c = true) :
    (bracketPair ']').replace (fun _ => [']', ']']) (t ++ ']' :: (b' ++ ']' :: c)) =
      t ++ ']' :: ']' :: c := by
  have hpair := beginsWith_bracketPair (c := ']') (by decide)
  induction h with
  | single e =>
    have hhit : bracketPair ']' ((']' :: (b' ++ [']'])) ++ c) =
        some ((), (']' :: (b' ++ [']'])).length) :=
      (bracketPair_eq_some_iff (by decide)).2 ⟨b', c, hb', by simp, by simp⟩
    have hrest := hpair.replace_eq_self (fun _ => [']', ']']) (IsBracketFree.of_isAllBlank hc).2
    rw [hpair.replace_append _ (hes e List.mem_cons_self).2,
      show ']' :: (b' ++ ']' :: c) = (']' :: (b' ++ [']'])) ++ c by simp,
      Pattern.replace_of_match _ (List.cons_ne_nil _ _) hhit, hrest]
    rfl
  | @cons e b b₁ es t hb hb₁ h ih =>
    have hnone : bracketPair ']' (']' :: (b ++ ',' :: (b₁ ++ '[' :: (t ++ ']' :: (b' ++ ']' :: c))))) =
        none :=
      bracketPair_eq_none (by decide) (IsBracketFree.of_isAllBlank hb).2 (by decide) (by decide) _
    have hmiddle : ']' ∉ b ++ ',' :: (b₁ ++ ['[']) := by
      simp only [List.mem_append, List.mem_cons, not_or]
      exact ⟨(IsBracketFree.of_isAllBlank hb).2, by decide, (IsBracketFree.of_isAllBlank hb₁).2,
        by decide, List.not_mem_nil⟩
    have hrest := ih fun x hx => hes x (List.mem_cons_of_mem e hx)
    have hsplit : b ++ ',' :: (b₁ ++ '[' :: (t ++ ']' :: (b' ++ ']' :: c))) =
        (b ++ ',' :: (b₁ ++ ['['])) ++ (t ++ ']' :: (b' ++ ']' :: c)) := by
      simp
    rw [List.append_assoc, hpair.replace_append _ (hes e List.mem_cons_self).2]
    simp only [List.cons_append, List.append_assoc]
    rw [Pattern.replace_cons_of_none _ hnone, hsplit, hpair.replace_append _ hmiddle, hrest]
    simp

theorem separators (h : Spaced es t) (hes : ∀ e ∈ es, IsBracketFree e) {c : Text}
    (hc : isAllBlank c = true) :
    separator.replace (fun _ => separatorText) (t ++ ']' :: ']' :: c) =
      Text.join separatorText es ++ ']' :: ']' :: c := by
  induction h with
  | single e =>
    have hnone : separator (']' :: ']' :: c) = none := by
      refine Option.eq_none_iff_forall_ne_some.2 fun ⟨_, n⟩ hn => ?_
      obtain ⟨b, b', rest, hb, -, heq, -⟩ := separator_eq_some_iff.1 hn
      exact append_ne_blanks_append (e := []) (by simp) (by decide) (by decide) hb
        (List.cons.inj heq).2
    have hnone' : separator (']' :: c) = none :=
      separator_eq_none_of_notMem (Volume.notMem_of_isAllBlank hc (by decide))
    have hrest := beginsWith_separator.replace_eq_self (fun _ => separatorText)
      (IsBracketFree.of_isAllBlank hc).2
    rw [beginsWith_separator.replace_append _ (hes e List.mem_cons_self).2,
      Pattern.replace_cons_of_none _ hnone, Pattern.replace_cons_of_none _ hnone', hrest, Text.join,
      List.intercalate_singleton]
  | @cons e b b' es t hb hb' h ih =>
    have hsplit : ']' :: (b ++ ',' :: (b' ++ '[' :: t)) ++ ']' :: ']' :: c =
        (']' :: (b ++ ',' :: (b' ++ ['[']))) ++ (t ++ ']' :: ']' :: c) := by
      simp
    have hhit : separator ((']' :: (b ++ ',' :: (b' ++ ['[']))) ++ (t ++ ']' :: ']' :: c)) =
        some ((), (']' :: (b ++ ',' :: (b' ++ ['[']))).length) := by
      refine separator_eq_some_iff.2 ⟨b, b', t ++ ']' :: ']' :: c, hb, hb', by simp, ?_⟩
      simp only [List.length_cons, List.length_append, List.length_nil]
      omega
    rw [List.append_assoc, beginsWith_separator.replace_append _ (hes e List.mem_cons_self).2, hsplit,
      Pattern.replace_of_match _ (List.cons_ne_nil _ _) hhit,
      ih fun x hx => hes x (List.mem_cons_of_mem e hx), Text.join_cons_of_ne_nil _ _ h.ne_nil]
    simp

end Spaced

/-! ## Reading layouts -/

theorem normalize_eq (literal : Text) : normalize literal =
    separator.replace (fun _ => separatorText) ((bracketPair ']').replace (fun _ => [']', ']'])
      ((bracketPair '[').replace (fun _ => ['[', '[']) literal)) := rfl

theorem normalize_list {a b b' c : Text} (ha : isAllBlank a = true) (hb : isAllBlank b = true)
    (hb' : isAllBlank b' = true) (hc : isAllBlank c = true) (h : Spaced es t)
    (hes : ∀ e ∈ es, IsBracketFree e) :
    normalize (a ++ '[' :: (b ++ '[' :: (t ++ ']' :: (b' ++ ']' :: c)))) =
      a ++ (['[', '['] ++ Text.join separatorText es ++ [']', ']']) ++ c := by
  have hafter : '[' ∉ b' ++ ']' :: c := by
    simp only [List.mem_append, List.mem_cons, not_or]
    exact ⟨(IsBracketFree.of_isAllBlank hb').1, by decide, (IsBracketFree.of_isAllBlank hc).1⟩
  have hfront : ']' ∉ a ++ ['[', '['] := by
    simp only [List.mem_append, List.mem_cons, not_or]
    exact ⟨(IsBracketFree.of_isAllBlank ha).2, by decide, by decide, List.not_mem_nil⟩
  have hhit : bracketPair '[' (('[' :: (b ++ ['['])) ++ (t ++ ']' :: (b' ++ ']' :: c))) =
      some ((), ('[' :: (b ++ ['['])).length) :=
    (bracketPair_eq_some_iff (by decide)).2 ⟨b, t ++ ']' :: (b' ++ ']' :: c), hb, by simp, by simp⟩
  have hopened : (bracketPair '[').replace (fun _ => ['[', '['])
      (a ++ '[' :: (b ++ '[' :: (t ++ ']' :: (b' ++ ']' :: c)))) =
        (a ++ ['[', '[']) ++ (t ++ ']' :: (b' ++ ']' :: c)) := by
    rw [(beginsWith_bracketPair (by decide)).replace_append _ (IsBracketFree.of_isAllBlank ha).1,
      show '[' :: (b ++ '[' :: (t ++ ']' :: (b' ++ ']' :: c))) =
        ('[' :: (b ++ ['['])) ++ (t ++ ']' :: (b' ++ ']' :: c)) by simp,
      Pattern.replace_of_match _ (List.cons_ne_nil _ _) hhit, h.opening hes hafter,
      List.append_assoc]
  rw [normalize_eq, hopened, (beginsWith_bracketPair (by decide)).replace_append _ hfront,
    h.closing hes hb' hc, beginsWith_separator.replace_append _ hfront, h.separators hes hc]
  simp

/-- A single pair of brackets has nothing to be drawn together. -/
theorem normalize_single {a b c : Text} (ha : isAllBlank a = true) (hb : IsBracketFree b)
    (hc : isAllBlank c = true) :
    normalize (a ++ '[' :: (b ++ ']' :: c)) = a ++ '[' :: (b ++ ']' :: c) := by
  have hfront : ']' ∉ a ++ '[' :: b := by
    simp only [List.mem_append, List.mem_cons, not_or]
    exact ⟨(IsBracketFree.of_isAllBlank ha).2, by decide, hb.2⟩
  have hafter : '[' ∉ b ++ ']' :: c := by
    simp only [List.mem_append, List.mem_cons, not_or]
    exact ⟨hb.1, by decide, (IsBracketFree.of_isAllBlank hc).1⟩
  have hopening : bracketPair '[' ('[' :: (b ++ ']' :: c)) = none :=
    bracketPair_eq_none (by decide) hb.1 (by decide) (by decide) c
  have hclosing : bracketPair ']' (']' :: c) = none :=
    bracketPair_eq_none_of_notMem (by decide) (IsBracketFree.of_isAllBlank hc).2
  have hseparator : separator (']' :: c) = none :=
    separator_eq_none_of_notMem (Volume.notMem_of_isAllBlank hc (by decide))
  have hpair : ∀ {c}, isBlank c = false → (bracketPair c).BeginsWith c := beginsWith_bracketPair
  have hopened : (bracketPair '[').replace (fun _ => ['[', '[']) (a ++ '[' :: (b ++ ']' :: c)) =
      a ++ '[' :: (b ++ ']' :: c) := by
    rw [(hpair (by decide)).replace_append _ (IsBracketFree.of_isAllBlank ha).1,
      Pattern.replace_cons_of_none _ hopening, (hpair (by decide)).replace_eq_self _ hafter]
  have hsplit : a ++ '[' :: (b ++ ']' :: c) = (a ++ '[' :: b) ++ ']' :: c := by simp
  rw [normalize_eq, hopened, hsplit, (hpair (by decide)).replace_append _ hfront,
    Pattern.replace_cons_of_none _ hclosing,
    (hpair (by decide)).replace_eq_self _ (IsBracketFree.of_isAllBlank hc).2,
    beginsWith_separator.replace_append _ hfront, Pattern.replace_cons_of_none _ hseparator,
    beginsWith_separator.replace_eq_self _ (IsBracketFree.of_isAllBlank hc).2]

theorem isSeparator_separatorText : Text.IsSeparator separatorText :=
  ⟨']', [',', '['], rfl, by decide⟩

theorem IsBracketFree.not_isInfix (h : IsBracketFree e) : ¬separatorText <:+: e := by
  intro hin
  exact h.2 (hin.subset (by decide))

/-- An entry alone in brackets is read as it stands, except that a blank one is none. -/
theorem parse_single {a b c : Text} (ha : isAllBlank a = true) (hb : IsBracketFree b)
    (hc : isAllBlank c = true) :
    parse (a ++ '[' :: (b ++ ']' :: c)) = if isAllBlank b then ⟨[]⟩ else ⟨[b]⟩ := by
  have htrim : (normalize (a ++ '[' :: (b ++ ']' :: c))).trim = ['['] ++ b ++ [']'] := by
    rw [normalize_single ha hb hc,
      show a ++ '[' :: (b ++ ']' :: c) = a ++ ('[' :: b ++ [']']) ++ c by simp,
      Text.trim_append_blanks ha hc]
    exact Text.trim_append_append (s := ['[']) (by decide) (by simp) (by decide) (by simp) b
  have hpairs : between? ['[', '['] [']', ']'] (['['] ++ b ++ [']']) = none := by
    refine Option.eq_none_iff_forall_ne_some.2 fun inner h => ?_
    have heq : b ++ [']'] = '[' :: (inner ++ [']', ']']) :=
      (List.cons.inj (between?_eq_some_iff.1 h)).2
    have hmem : '[' ∈ b ++ [']'] := by
      rw [heq]
      exact List.mem_cons_self
    exact (List.mem_append.1 hmem).elim hb.1 (by decide)
  have hinside : inside (a ++ '[' :: (b ++ ']' :: c)) = b := by
    rw [inside, htrim]
    rw [hpairs, between?_eq_some_iff.2 rfl]
    rfl
  rw [parse, hinside, Text.splitOn_of_not_isInfix hb.not_isInfix]

/-- The entries of a layout are read as they stand, except that a single blank one is none. -/
theorem parse_of_isLayout {literal : Text} (h : IsLayout es literal)
    (hes : ∀ e ∈ es, IsBracketFree e) :
    parse literal = if isAllBlank (Text.join separatorText es) then ⟨[]⟩ else ⟨es⟩ := by
  cases h with
  | nil a b c ha hb hc =>
    rw [parse_single ha (IsBracketFree.of_isAllBlank hb) hc, if_pos hb]
    rfl
  | @list a b b' c _ t ha hb hb' hc h =>
    have htrim : (normalize (a ++ '[' :: (b ++ '[' :: (t ++ ']' :: (b' ++ ']' :: c))))).trim =
        ['[', '['] ++ Text.join separatorText es ++ [']', ']'] := by
      rw [normalize_list ha hb hb' hc h hes, Text.trim_append_blanks ha hc]
      exact Text.trim_append_append (by decide) (by decide) (by decide) (by decide) _
    have hinside : inside (a ++ '[' :: (b ++ '[' :: (t ++ ']' :: (b' ++ ']' :: c)))) =
        Text.join separatorText es := by
      rw [inside, htrim]
      rw [between?_eq_some_iff.2 rfl]
    have hsplit := Text.splitOn_join isSeparator_separatorText h.ne_nil fun e he => (hes e he).not_isInfix
    rw [parse, hinside, hsplit]

/-- Entries are taken for none only if there is one, and it is blank. -/
theorem isAllBlank_join_iff (hes : es ≠ []) :
    isAllBlank (Text.join separatorText es) = true ↔ ∃ e, es = [e] ∧ isAllBlank e = true := by
  cases es with
  | nil => exact absurd rfl hes
  | cons e es =>
    cases es with
    | nil =>
      rw [Text.join, List.intercalate_singleton]
      constructor
      · exact fun h => ⟨e, rfl, h⟩
      · rintro ⟨f, hf, h⟩
        rwa [(List.cons.inj hf).1]
    | cons e' es =>
      rw [Text.join_cons_of_ne_nil _ _ (List.cons_ne_nil e' es)]
      constructor
      · intro h
        have hmem : ']' ∈ e ++ separatorText ++ Text.join separatorText (e' :: es) := by
          rw [separatorText]
          simp
        exact absurd (List.all_eq_true.1 h _ hmem) (by decide)
      · rintro ⟨f, hf, -⟩
        cases (List.cons.inj hf).2

/-! ## Literals that were written -/

theorem spaced_join (hes : es ≠ []) : Spaced es (Text.join separatorText es) := by
  induction es with
  | nil => exact absurd rfl hes
  | cons e es ih =>
    cases es with
    | nil =>
      rw [Text.join, List.intercalate_singleton]
      exact .single e
    | cons e' es =>
      have h := Spaced.cons e [] [] rfl rfl (ih (List.cons_ne_nil e' es))
      rw [Text.join_cons_of_ne_nil _ _ (List.cons_ne_nil e' es)]
      simpa [separatorText] using h

theorem isLayout_toLiteral (es : List Text) : IsLayout es (toLiteral ⟨es⟩) := by
  rw [toLiteral]
  split
  · next h =>
    rw [show es = [] from h]
    exact .nil [] [] [] rfl rfl rfl
  · next h =>
    simpa using IsLayout.list [] [] [] [] rfl rfl rfl rfl (spaced_join h)

/-- The entries of a layout are read as they stand, unless there is one alone and it is blank. -/
theorem parse_eq_of_isLayout {literal : Text} (h : IsLayout es literal)
    (hes : ∀ e ∈ es, IsBracketFree e) (hblank : ∀ e, es = [e] → isAllBlank e = false) :
    parse literal = ⟨es⟩ := by
  rw [parse_of_isLayout h hes]
  split
  · next hjoin =>
    by_cases hne : es = []
    · rw [hne]
    · obtain ⟨e, he, hall⟩ := (isAllBlank_join_iff hne).1 hjoin
      rw [hblank e he] at hall
      cases hall
  · rfl

/-- A list of entries without brackets is read back as it was written. -/
theorem parse_toLiteral (hes : ∀ e ∈ es, IsBracketFree e)
    (hblank : ∀ e, es = [e] → isAllBlank e = false) : parse (toLiteral ⟨es⟩) = ⟨es⟩ :=
  parse_eq_of_isLayout (isLayout_toLiteral es) hes hblank

theorem parse_of_isAllBlank (ht : isAllBlank t = true) : parse t = ⟨[]⟩ := by
  have hnormal : isAllBlank (normalize t) = true := by
    have hsub : (normalize t).Sublist t :=
      normalize_induction (Q := fun t u => u.Sublist t) Drawn.sublist (fun h₁ h₂ => h₂.trans h₁) t
    exact List.all_eq_true.2 fun c hc => List.all_eq_true.1 ht c (hsub.subset hc)
  have hinside : inside t = [] := by
    rw [inside, Text.trim_of_isAllBlank hnormal]
    rfl
  rw [parse, hinside]
  rfl

/-- A list never comes out of a literal as one blank entry. -/
theorem isAllBlank_of_entries_parse {literal : Text} (h : (parse literal).entries = [e]) :
    isAllBlank e = false := by
  rw [parse] at h
  by_cases hblank : isAllBlank (inside literal) = true
  · rw [if_pos hblank] at h
    cases h
  · rw [if_neg hblank] at h
    have hjoin := Text.join_splitOn separatorText (inside literal)
    rw [show Text.splitOn separatorText (inside literal) = [e] from h, Text.join,
      List.intercalate_singleton] at hjoin
    rw [hjoin]
    simpa using hblank

/-- The texts whose brackets are those of a list: blank ones, layouts, and single entries in
brackets. -/
inductive IsFlat : Text → Prop
  | blank {t : Text} (ht : isAllBlank t = true) : IsFlat t
  | single {a b c : Text} (ha : isAllBlank a = true) (hb : IsBracketFree b)
      (hc : isAllBlank c = true) : IsFlat (a ++ '[' :: (b ++ ']' :: c))
  | list {es : List Text} {t : Text} (h : IsLayout es t) (hes : ∀ e ∈ es, IsBracketFree e) : IsFlat t

theorem IsFlat.isBracketFree {literal : Text} (h : IsFlat literal)
    (he : e ∈ (parse literal).entries) : IsBracketFree e := by
  cases h with
  | blank ht =>
    rw [parse_of_isAllBlank ht] at he
    cases he
  | single ha hb hc =>
    rw [parse_single ha hb hc] at he
    split at he
    · cases he
    · rwa [List.mem_singleton.1 he]
  | list h hes =>
    rw [parse_of_isLayout h hes] at he
    split at he
    · cases he
    · exact hes e he

end PodList
end HeadJob
