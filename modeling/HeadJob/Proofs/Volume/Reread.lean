import Mathlib.Data.List.Forall2
import HeadJob.Proofs.Volume.Entry

/-!
A list literal that was written, when it is read again.

Entries may hold brackets, and then blanks are dropped in them that the first reading left alone.  But a
comma that stands between brackets would have parted the entries before.  So as many entries are read as
were written, each without some blanks between brackets of one kind, and it holds what it held.
-/

namespace HeadJob
namespace PodList

open Text (isBlank isAllBlank)

/-- The second text is the first without some of the blanks between brackets of one kind. -/
inductive Paired : Text → Text → Prop
  | nil : Paired [] []
  | cons (c : Char) {t u : Text} (h : Paired t u) : Paired (c :: t) (c :: u)
  | draw {c : Char} {b t u : Text} (hc : c = '[' ∨ c = ']') (hb : isAllBlank b = true)
      (h : Paired (c :: t) (c :: u)) : Paired (c :: (b ++ c :: t)) (c :: c :: u)

variable {c : Char} {e e' r s t u w : Text} {es : List Text}

theorem isBlank_of_bracket (hc : c = '[' ∨ c = ']') : isBlank c = false := by
  rcases hc with rfl | rfl <;> decide

theorem paired_bracketPair (hc : c = '[' ∨ c = ']') (t : Text) :
    Paired t ((bracketPair c).replace (fun _ => [c, c]) t) := by
  have hblank := isBlank_of_bracket hc
  refine (matches_bracketPair hblank).replace_induction (advances_bracketPair hblank) _ .nil
    (fun d t u _ h => h.cons d) ?_ t
  rintro _ t u ⟨b, hb, rfl⟩ h
  simpa using Paired.draw hc hb (h.cons c)

namespace Paired

theorem head? (h : Paired t u) : t.head? = u.head? := by
  cases h <;> rfl

theorem getLast? (h : Paired t u) : t.getLast? = u.getLast? := by
  induction h with
  | nil => rfl
  | cons c h ih => rw [List.getLast?_cons, List.getLast?_cons, ih]
  | draw hc hb h ih =>
    rw [List.getLast?_cons_cons, ← ih, ← List.cons_append,
      List.getLast?_append_of_ne_nil _ (List.cons_ne_nil _ _)]

/-- Where neither side ends or begins with blanks, a text is drawn together on the two sides apart. -/
theorem exists_append {x y : Text} (h : Paired (x ++ y) w) (hx : ∀ c ∈ x.getLast?, isBlank c = false)
    (hy : ∀ c ∈ y.head?, isBlank c = false) :
    ∃ x' y', w = x' ++ y' ∧ Paired x x' ∧ Paired y y' := by
  generalize ht : x ++ y = t at h
  induction h generalizing x with
  | nil =>
    obtain ⟨rfl, rfl⟩ := List.append_eq_nil_iff.1 ht
    exact ⟨[], [], rfl, .nil, .nil⟩
  | @cons c t u h ih =>
    cases x with
    | nil =>
      rw [List.nil_append] at ht
      exact ⟨[], c :: u, rfl, .nil, by rw [ht]; exact h.cons c⟩
    | cons d x =>
      obtain ⟨rfl, hrest⟩ := List.cons.inj ht
      obtain ⟨x', y', rfl, hxx, hyy⟩ := ih (forall_getLast?_tail hx) hrest
      exact ⟨d :: x', y', rfl, hxx.cons d, hyy⟩
  | @draw c b t u hc hb h ih =>
    cases x with
    | nil =>
      rw [List.nil_append] at ht
      exact ⟨[], c :: c :: u, rfl, .nil, by rw [ht]; exact .draw hc hb h⟩
    | cons d x =>
      obtain ⟨rfl, hrest⟩ := List.cons.inj ht
      have hfirst : isAllBlank x = true → y = d :: t →
          ∃ x' y', d :: d :: u = x' ++ y' ∧ Paired (d :: x) x' ∧ Paired y y' := by
        rintro hblank rfl
        rw [eq_nil_of_isAllBlank (forall_getLast?_tail hx) hblank]
        exact ⟨[d], d :: u, rfl, .cons d .nil, h⟩
      rcases List.append_eq_append_iff.1 hrest with ⟨z, rfl, hz⟩ | ⟨z, rfl, hz⟩
      · rw [Text.isAllBlank_append, Bool.and_eq_true] at hb
        cases z with
        | nil => exact hfirst hb.1 hz
        | cons f z =>
          have hblank := List.all_eq_true.1 hb.2 f List.mem_cons_self
          rw [hy f (by rw [hz]; rfl)] at hblank
          cases hblank
      · cases z with
        | nil => exact hfirst (by rwa [List.append_nil]) hz.symm
        | cons f z =>
          obtain ⟨rfl, -⟩ := List.cons.inj hz
          rw [← List.cons_append, List.getLast?_append_of_ne_nil _ (List.cons_ne_nil d z)] at hx
          obtain ⟨x', y', hu, hxx, hyy⟩ := ih hx hz.symm
          cases x' with
          | nil => exact absurd hxx.head? (by simp)
          | cons f x' =>
            obtain ⟨rfl, rfl⟩ := List.cons.inj hu
            exact ⟨d :: d :: x', y', rfl, .draw hc hb hxx, hyy⟩

end Paired

/-! ## Words that stand firm -/

/-- A text that is not changed where it stands: it begins and ends with something, and holds each bracket
once at most. -/
structure IsWord (r : Text) : Prop where
  ne_nil : r ≠ []
  head : ∀ c ∈ r.head?, isBlank c = false
  last : ∀ c ∈ r.getLast?, isBlank c = false
  once : ∀ c, c = '[' ∨ c = ']' → r.count c ≤ 1

namespace Paired

theorem isPrefix (h : Paired t u) (hlast : ∀ c ∈ r.getLast?, isBlank c = false)
    (honce : ∀ c, c = '[' ∨ c = ']' → r.count c ≤ 1) (hr : r <+: t) : r <+: u := by
  induction h generalizing r with
  | nil => exact hr
  | cons c h ih =>
    cases r with
    | nil => exact List.nil_prefix
    | cons d r =>
      obtain ⟨rfl, hrest⟩ := List.cons_prefix_cons.1 hr
      refine (List.prefix_cons_inj d).2 (ih (forall_getLast?_tail hlast) (fun c hc => ?_) hrest)
      exact ((List.sublist_cons_self d r).count_le c).trans (honce c hc)
  | @draw c b t u hc hb h ih =>
    cases r with
    | nil => exact List.nil_prefix
    | cons d r =>
      obtain ⟨rfl, rest, hrest⟩ := List.cons_prefix_cons.1 hr
      have hblank : isAllBlank r = true → d :: r <+: d :: d :: u := fun hblank => by
        rw [eq_nil_of_isAllBlank (forall_getLast?_tail hlast) hblank]
        exact ⟨d :: u, rfl⟩
      rcases List.append_eq_append_iff.1 hrest with ⟨z, rfl, -⟩ | ⟨z, rfl, hz⟩
      · rw [Text.isAllBlank_append, Bool.and_eq_true] at hb
        exact hblank hb.1
      · cases z with
        | nil => exact hblank (by rwa [List.append_nil])
        | cons f z =>
          -- both brackets of the pair would be in the word
          obtain ⟨rfl, -⟩ := List.cons.inj hz
          have htwice := honce d hc
          rw [List.count_cons_self, List.count_append, List.count_cons_self] at htwice
          omega

theorem isInfix (h : Paired t u) (hr : IsWord r) (ht : r <:+: t) : r <:+: u := by
  have hstart : ∀ {t u}, Paired t u → r <+: t → r <:+: u := fun h ht =>
    (h.isPrefix hr.last hr.once ht).isInfix
  induction h with
  | nil => exact ht
  | cons c h ih =>
    rcases List.infix_cons_iff.1 ht with ht | ht
    · exact hstart (h.cons c) ht
    · exact (ih ht).trans (List.suffix_cons c _).isInfix
  | @draw c b t u hc hb h ih =>
    rcases List.infix_cons_iff.1 ht with ht | ⟨x, y, hxy⟩
    · exact hstart (.draw hc hb h) ht
    · refine (ih ?_).trans (List.suffix_cons c _).isInfix
      rw [List.append_assoc] at hxy
      rcases List.append_eq_append_iff.1 hxy with ⟨z, rfl, hz⟩ | ⟨z, rfl, hz⟩
      · cases z with
        | nil => exact ⟨[], y, by rw [List.nil_append]; exact hz⟩
        | cons f z =>
          have hblank := List.all_eq_true.1 hb f (by simp)
          have hhead : (r ++ y).head? = some f := by rw [hz]; rfl
          rw [List.head?_append_of_ne_nil _ hr.ne_nil] at hhead
          rw [hr.head f hhead] at hblank
          cases hblank
      · exact ⟨z, y, by rw [List.append_assoc]; exact hz.symm⟩

end Paired

/-! ## Separators -/

/-- Somewhere a comma stands between a closing and an opening bracket, with blanks around it or not. -/
def HasSeparator (t : Text) : Prop := ∃ s, s <:+ t ∧ separator s ≠ none

theorem separator_ne_none_iff :
    separator t ≠ none ↔
      ∃ b b' rest, isAllBlank b = true ∧ isAllBlank b' = true ∧
        t = ']' :: (b ++ ',' :: (b' ++ '[' :: rest)) := by
  rw [Option.ne_none_iff_exists']
  constructor
  · rintro ⟨⟨_, n⟩, h⟩
    obtain ⟨b, b', rest, hb, hb', ht, -⟩ := separator_eq_some_iff.1 h
    exact ⟨b, b', rest, hb, hb', ht⟩
  · rintro ⟨b, b', rest, hb, hb', ht⟩
    exact ⟨_, separator_eq_some_iff.2 ⟨b, b', rest, hb, hb', ht, rfl⟩⟩

theorem separator_append_ne_none (h : separator s ≠ none) (t : Text) : separator (s ++ t) ≠ none := by
  obtain ⟨b, b', rest, hb, hb', rfl⟩ := separator_ne_none_iff.1 h
  exact separator_ne_none_iff.2 ⟨b, b', rest ++ t, hb, hb', by simp⟩

theorem not_hasSeparator_of_notMem (ht : ']' ∉ t) : ¬HasSeparator t := by
  rintro ⟨s, hs, h⟩
  obtain ⟨b, b', rest, -, -, rfl⟩ := separator_ne_none_iff.1 h
  exact ht (hs.subset List.mem_cons_self)

theorem isBracketFree_around {b b' : Text} (hb : isAllBlank b = true) (hb' : isAllBlank b' = true) :
    IsBracketFree (b ++ ',' :: b') := by
  have hfree := IsBracketFree.of_isAllBlank hb
  have hfree' := IsBracketFree.of_isAllBlank hb'
  refine ⟨?_, ?_⟩
  · simp only [List.mem_append, List.mem_cons, not_or]
    exact ⟨hfree.1, by decide, hfree'.1⟩
  · simp only [List.mem_append, List.mem_cons, not_or]
    exact ⟨hfree.2, by decide, hfree'.2⟩

namespace Paired

/-- What holds no bracket is not drawn together. -/
theorem exists_append_of_isBracketFree (h : Paired t (s ++ u)) (hs : IsBracketFree s) :
    ∃ t', t = s ++ t' ∧ Paired t' u := by
  induction s generalizing t with
  | nil => exact ⟨t, rfl, h⟩
  | cons c s ih =>
    have hrest : IsBracketFree s :=
      ⟨fun hmem => hs.1 (List.mem_cons_of_mem c hmem), fun hmem => hs.2 (List.mem_cons_of_mem c hmem)⟩
    generalize hw : c :: s ++ u = w at h
    cases h with
    | nil => cases hw
    | cons d h =>
      obtain ⟨rfl, rfl⟩ := List.cons.inj hw
      obtain ⟨t', rfl, ht'⟩ := ih h hrest
      exact ⟨t', rfl, ht'⟩
    | draw hc hb h =>
      obtain ⟨rfl, -⟩ := List.cons.inj hw
      rcases hc with rfl | rfl
      · exact absurd List.mem_cons_self hs.1
      · exact absurd List.mem_cons_self hs.2

theorem hasSeparator (h : Paired t u) (hu : HasSeparator u) : HasSeparator t := by
  induction h with
  | nil => exact hu
  | @cons c t u h ih =>
    obtain ⟨s, hs, hsep⟩ := hu
    rcases List.suffix_cons_iff.1 hs with rfl | hs
    · obtain ⟨b, b', rest, hb, hb', heq⟩ := separator_ne_none_iff.1 hsep
      obtain ⟨rfl, rfl⟩ := List.cons.inj heq
      obtain ⟨t', rfl, ht'⟩ := exists_append_of_isBracketFree (s := b ++ ',' :: b') (by simpa using h)
        (isBracketFree_around hb hb')
      have hhead := ht'.head?
      cases t' with
      | nil => cases hhead
      | cons d t' =>
        cases hhead
        exact ⟨_, List.suffix_refl _, separator_ne_none_iff.2 ⟨b, b', t', hb, hb', by simp⟩⟩
    · obtain ⟨s', hs', hsep'⟩ := ih ⟨s, hs, hsep⟩
      exact ⟨s', hs'.trans (List.suffix_cons c t), hsep'⟩
  | @draw c b t u hc hb h ih =>
    obtain ⟨s, hs, hsep⟩ := hu
    rcases List.suffix_cons_iff.1 hs with rfl | hs
    · obtain ⟨b₁, b₂, rest, hb₁, -, heq⟩ := separator_ne_none_iff.1 hsep
      obtain ⟨rfl, hrest⟩ := List.cons.inj heq
      exact absurd hrest (append_ne_blanks_append (e := []) (by simp) (by decide) (by decide) hb₁)
    · obtain ⟨s', hs', hsep'⟩ := ih ⟨s, hs, hsep⟩
      exact ⟨s', hs'.trans ⟨c :: b, rfl⟩, hsep'⟩

end Paired

/-- No new separator comes about where separators are drawn together. -/
theorem isPrefix_of_suffix_replace (hs : s <:+ separator.replace (fun _ => separatorText) t)
    (hsep : separator s ≠ none) : separatorText <+: s := by
  have hall := Pattern.replace_induction advances_separator (fun _ => separatorText)
    (Q := fun t u =>
      (∀ s z, IsBracketFree s → u = s ++ '[' :: z → ∃ z', t = s ++ '[' :: z') ∧
        ∀ s, s <:+ u → separator s ≠ none → separatorText <+: s)
    ?_ (fun c t u hnone ⟨hopening, hsuffix⟩ => ?_) (fun t _ n u _ ⟨_, hsuffix⟩ => ?_) t
  · exact hall.2 s hs hsep
  · refine ⟨fun s z _ h => ?_, fun s hs hsep => ?_⟩
    · rw [List.nil_eq, List.append_eq_nil_iff] at h
      cases h.2
    · rw [List.suffix_nil.1 hs] at hsep
      exact absurd rfl hsep
  · refine ⟨fun s z hs h => ?_, fun s hs hsep => ?_⟩
    · cases s with
      | nil =>
        obtain ⟨rfl, -⟩ := List.cons.inj h
        exact ⟨t, rfl⟩
      | cons d s =>
        obtain ⟨rfl, hu⟩ := List.cons.inj h
        have hrest : IsBracketFree s := ⟨fun hmem => hs.1 (List.mem_cons_of_mem c hmem),
          fun hmem => hs.2 (List.mem_cons_of_mem c hmem)⟩
        obtain ⟨z', rfl⟩ := hopening s z hrest hu
        exact ⟨z', rfl⟩
    · rcases List.suffix_cons_iff.1 hs with rfl | hs
      · -- the same separator would have been found
        obtain ⟨b, b', rest, hb, hb', heq⟩ := separator_ne_none_iff.1 hsep
        obtain ⟨rfl, rfl⟩ := List.cons.inj heq
        obtain ⟨z', rfl⟩ := hopening (b ++ ',' :: b') rest (isBracketFree_around hb hb') (by simp)
        refine absurd hnone (separator_ne_none_iff.2 ⟨b, b', z', hb, hb', by simp⟩)
      · exact hsuffix s hs hsep
  · refine ⟨fun s z hs h => ?_, fun s hs hsep => ?_⟩
    · cases s with
      | nil => cases (List.cons.inj h).1
      | cons d s =>
        obtain ⟨rfl, -⟩ := List.cons.inj h
        exact absurd List.mem_cons_self hs.2
    · have hnone : ∀ {c : Char} {t : Text}, c ≠ ']' → separator (c :: t) = none := fun hc =>
        beginsWith_separator _ fun h => hc (Option.some.inj h)
      rcases List.suffix_cons_iff.1 hs with rfl | hs
      · exact List.prefix_append _ _
      · rcases List.suffix_cons_iff.1 hs with rfl | hs
        · exact absurd (hnone (by decide)) hsep
        · rcases List.suffix_cons_iff.1 hs with rfl | hs
          · exact absurd (hnone (by decide)) hsep
          · exact hsuffix s hs hsep

/-- A closing bracket ends no separator that begins in front of it. -/
theorem separator_of_append (hs : s ≠ []) (h : separator (s ++ ']' :: t) ≠ none) :
    separator s ≠ none := by
  obtain ⟨b, b', rest, hb, hb', heq⟩ := separator_ne_none_iff.1 h
  obtain ⟨c, s, rfl⟩ := List.exists_cons_of_ne_nil hs
  obtain ⟨rfl, hrest⟩ := List.cons.inj heq
  have hfree : ']' ∉ b ++ ',' :: b' ++ ['['] := by
    rw [List.mem_append, List.mem_singleton, not_or]
    exact ⟨(isBracketFree_around hb hb').2, by decide⟩
  obtain ⟨s', rfl, -⟩ := Text.exists_append_of_notMem (t := t) hfree (by simpa using hrest)
  exact separator_ne_none_iff.2 ⟨b, b', s', hb, hb', by simp⟩

/-- What has no separator is left alone, also in front of a closing bracket. -/
theorem replace_separator_append (he : ¬HasSeparator e) (t : Text) :
    separator.replace (fun _ => separatorText) (e ++ ']' :: t) =
      e ++ separator.replace (fun _ => separatorText) (']' :: t) := by
  refine Pattern.replace_append_of_none _ fun s hne hs => ?_
  by_contra hsep
  exact he ⟨s, hs, separator_of_append hne hsep⟩

theorem replace_separator_join (hes : ∀ e ∈ es, ¬HasSeparator e) (hne : es ≠ []) :
    separator.replace (fun _ => separatorText) (Text.join separatorText es ++ [']', ']']) =
      Text.join separatorText es ++ [']', ']'] := by
  induction es with
  | nil => exact absurd rfl hne
  | cons e es ih =>
    have hfirst := replace_separator_append (hes e List.mem_cons_self)
    cases es with
    | nil =>
      rw [Text.join, List.intercalate_singleton, hfirst]
      rfl
    | cons e' es =>
      have hrest := ih (fun x hx => hes x (List.mem_cons_of_mem e hx)) (List.cons_ne_nil e' es)
      have hhit : separator (separatorText ++ (Text.join separatorText (e' :: es) ++ [']', ']'])) =
          some ((), separatorText.length) :=
        separator_eq_some_iff.2 ⟨[], [], _, rfl, rfl, rfl, rfl⟩
      have hjoin := Text.join_cons_of_ne_nil separatorText e (List.cons_ne_nil e' es)
      calc separator.replace (fun _ => separatorText)
            (Text.join separatorText (e :: e' :: es) ++ [']', ']'])
          = separator.replace (fun _ => separatorText)
              (e ++ ']' :: (',' :: '[' :: (Text.join separatorText (e' :: es) ++ [']', ']']))) := by
            rw [hjoin]
            simp [separatorText]
        _ = e ++ separator.replace (fun _ => separatorText)
              (separatorText ++ (Text.join separatorText (e' :: es) ++ [']', ']'])) := hfirst _
        _ = e ++ (separatorText ++ (Text.join separatorText (e' :: es) ++ [']', ']'])) := by
            rw [Pattern.replace_of_match _ isSeparator_separatorText.ne_nil hhit, hrest]
        _ = Text.join separatorText (e :: e' :: es) ++ [']', ']'] := by
            rw [hjoin]
            simp only [List.append_assoc]

/-! ## Reading again -/

def bracketed (e : Text) : Text := '[' :: (e ++ [']'])

theorem head?_bracketed : ∀ c ∈ (bracketed e).head?, isBlank c = false := by
  rintro c ⟨⟩
  decide

theorem getLast?_bracketed : ∀ c ∈ (bracketed e).getLast?, isBlank c = false := by
  intro c hc
  rw [bracketed, ← List.cons_append, List.getLast?_concat] at hc
  cases hc
  decide

theorem join_bracketed (hne : es ≠ []) :
    Text.join [','] (es.map bracketed) = bracketed (Text.join separatorText es) := by
  induction es with
  | nil => exact absurd rfl hne
  | cons e es ih =>
    cases es with
    | nil => simp [Text.join]
    | cons e' es =>
      have hrest := ih (List.cons_ne_nil e' es)
      rw [Text.join_cons_of_ne_nil separatorText e (List.cons_ne_nil e' es), List.map_cons,
        Text.join_cons_of_ne_nil [','] (bracketed e) (by simp), hrest]
      simp [bracketed, separatorText]

/-- A list literal, by the brackets of its entries. -/
theorem toLiteral_eq_bracketed (hne : es ≠ []) :
    toLiteral ⟨es⟩ = bracketed (Text.join [','] (es.map bracketed)) := by
  rw [join_bracketed hne, toLiteral, if_neg hne]
  simp [bracketed]

namespace Paired

theorem eq_of_singleton (h : Paired [c] w) : w = [c] := by
  generalize hs : [c] = t at h
  cases h with
  | nil => cases hs
  | cons d h =>
    obtain ⟨rfl, rfl⟩ := List.cons.inj hs
    cases h
    rfl
  | draw hc hb h => simp at hs

theorem exists_bracketed (h : Paired (bracketed e) w) : ∃ e', w = bracketed e' := by
  have hhead := h.head?
  have hlast := h.getLast?
  rw [bracketed, ← List.cons_append, List.getLast?_concat] at hlast
  obtain ⟨x, rfl⟩ := List.getLast?_eq_some_iff.1 hlast.symm
  cases x with
  | nil => cases hhead
  | cons c x =>
    cases hhead
    exact ⟨x, rfl⟩

/-- Outer brackets are not drawn together with more than what they stand next to. -/
theorem exists_of_bracketed (h : Paired (bracketed (bracketed t)) w) :
    ∃ w', w = bracketed w' ∧ Paired (bracketed t) w' := by
  have hsplit : bracketed (bracketed t) = ['['] ++ (bracketed t ++ [']']) := rfl
  rw [hsplit] at h
  obtain ⟨x, y, rfl, hx, hy⟩ := h.exists_append (by simp; decide) head?_bracketed
  obtain ⟨w', z, rfl, hw, hz⟩ := hy.exists_append getLast?_bracketed (by simp; decide)
  rw [hx.eq_of_singleton, hz.eq_of_singleton]
  exact ⟨w', rfl, hw⟩

end Paired

/-- How an entry comes out when its literal is read again. -/
structure Rereads (e e' : Text) : Prop where
  hasSeparator : HasSeparator e' → HasSeparator e
  isInfix : ∀ r, IsWord r → r <:+: bracketed e → r <:+: bracketed e'

theorem Rereads.trans {e'' : Text} (h : Rereads e e') (h' : Rereads e' e'') : Rereads e e'' :=
  ⟨h.hasSeparator ∘ h'.hasSeparator, fun r hr hin => h'.isInfix r hr (h.isInfix r hr hin)⟩

theorem hasSeparator_bracketed_iff : HasSeparator (bracketed e) ↔ HasSeparator e := by
  constructor
  · rintro ⟨s, hs, hsep⟩
    rcases List.suffix_cons_iff.1 hs with rfl | hs
    · exact absurd (beginsWith_separator _ (by simp)) hsep
    · rcases List.suffix_concat_iff.1 hs with rfl | ⟨s, rfl, hin⟩
      · exact absurd rfl hsep
      · refine ⟨s, hin, separator_of_append ?_ hsep⟩
        rintro rfl
        exact hsep (by decide)
  · rintro ⟨s, ⟨x, rfl⟩, hsep⟩
    exact ⟨s ++ [']'], ⟨'[' :: x, by simp [bracketed]⟩, separator_append_ne_none hsep _⟩

theorem Paired.rereads (h : Paired (bracketed e) (bracketed e')) : Rereads e e' :=
  ⟨fun he => hasSeparator_bracketed_iff.1 (h.hasSeparator (hasSeparator_bracketed_iff.2 he)),
    fun _ hr hin => h.isInfix hr hin⟩

theorem Paired.exists_join (h : Paired (Text.join [','] (es.map bracketed)) w) (hne : es ≠ []) :
    ∃ es', List.Forall₂ Rereads es es' ∧ w = Text.join [','] (es'.map bracketed) := by
  induction es generalizing w with
  | nil => exact absurd rfl hne
  | cons e es ih =>
    cases es with
    | nil =>
      rw [List.map_singleton, Text.join, List.intercalate_singleton] at h
      obtain ⟨e', rfl⟩ := h.exists_bracketed
      exact ⟨[e'], .cons h.rereads .nil, by simp [Text.join]⟩
    | cons e₁ es =>
      have hne' : e₁ :: es ≠ [] := List.cons_ne_nil e₁ es
      rw [List.map_cons, Text.join_cons_of_ne_nil _ _ (by simp), List.append_assoc] at h
      obtain ⟨x, y, rfl, hx, hy⟩ := h.exists_append getLast?_bracketed (by simp; decide)
      obtain ⟨e', rfl⟩ := hx.exists_bracketed
      obtain ⟨z, w, rfl, hz, hw⟩ := hy.exists_append (by simp; decide)
        (by rw [join_bracketed hne']; exact head?_bracketed)
      obtain ⟨es', hes', rfl⟩ := ih hw hne'
      have hne₂ : es'.map bracketed ≠ [] := by
        cases hes'
        simp
      refine ⟨e' :: es', .cons hx.rereads hes', ?_⟩
      rw [hz.eq_of_singleton, List.map_cons, Text.join_cons_of_ne_nil _ _ hne₂, List.append_assoc]

theorem Paired.exists_toLiteral (h : Paired (toLiteral ⟨es⟩) w) (hne : es ≠ []) :
    ∃ es', List.Forall₂ Rereads es es' ∧ es' ≠ [] ∧ w = toLiteral ⟨es'⟩ := by
  rw [toLiteral_eq_bracketed hne, join_bracketed hne] at h
  obtain ⟨w', rfl, hw⟩ := h.exists_of_bracketed
  rw [← join_bracketed hne] at hw
  obtain ⟨es', hes', rfl⟩ := hw.exists_join hne
  have hne' : es' ≠ [] := by
    rintro rfl
    cases hes'
    exact hne rfl
  exact ⟨es', hes', hne', (toLiteral_eq_bracketed hne').symm⟩

theorem forall₂_trans {es' es'' : List Text} (h : List.Forall₂ Rereads es es')
    (h' : List.Forall₂ Rereads es' es'') : List.Forall₂ Rereads es es'' := by
  induction h generalizing es'' with
  | nil => exact h'
  | cons he _ ih =>
    cases h' with
    | cons he' h' => exact .cons (he.trans he') (ih h')

theorem exists_of_mem_left {R : Text → Text → Prop} {es es' : List Text} (h : List.Forall₂ R es es')
    (he : e ∈ es) : ∃ e' ∈ es', R e e' := by
  induction h with
  | nil => cases he
  | cons hab _ ih =>
    rcases List.mem_cons.1 he with rfl | he
    · exact ⟨_, List.mem_cons_self, hab⟩
    · obtain ⟨e', he', hee⟩ := ih he
      exact ⟨e', List.mem_cons_of_mem _ he', hee⟩

theorem not_isInfix_of_not_hasSeparator (he : ¬HasSeparator e) : ¬separatorText <:+: e := by
  rintro ⟨x, y, rfl⟩
  refine he ⟨separatorText ++ y, ⟨x, by rw [List.append_assoc]⟩, ?_⟩
  exact separator_ne_none_iff.2 ⟨[], [], y, rfl, rfl, rfl⟩

/-- What is found inside a written literal, when its brackets have been drawn together and the entries
that this leaves have no separators. -/
theorem inside_toLiteral {es₁ es' : List Text}
    (hopened : (bracketPair '[').replace (fun _ => ['[', '[']) (toLiteral ⟨es⟩) = toLiteral ⟨es₁⟩)
    (hclosed : (bracketPair ']').replace (fun _ => [']', ']']) (toLiteral ⟨es₁⟩) = toLiteral ⟨es'⟩)
    (hes' : ∀ e' ∈ es', ¬HasSeparator e') (hne : es' ≠ []) :
    inside (toLiteral ⟨es⟩) = Text.join separatorText es' := by
  have hnormal : normalize (toLiteral ⟨es⟩) =
      ['[', '['] ++ Text.join separatorText es' ++ [']', ']'] := by
    rw [normalize_eq, hopened, hclosed, toLiteral, if_neg hne, List.append_assoc,
      beginsWith_separator.replace_append _ (by decide), replace_separator_join hes' hne]
  have htrim : (normalize (toLiteral ⟨es⟩)).trim =
      ['[', '['] ++ Text.join separatorText es' ++ [']', ']'] := by
    rw [hnormal]
    exact Text.trim_append_append (by decide) (by decide) (by decide) (by decide) _
  rw [inside, htrim]
  rw [between?_eq_some_iff.2 rfl]

theorem not_hasSeparator_of_rereads {es' : List Text} (h : List.Forall₂ Rereads es es')
    (hes : ∀ e ∈ es, ¬HasSeparator e) : ∀ e' ∈ es', ¬HasSeparator e' := by
  intro e' he' hsep
  obtain ⟨e, he, hee⟩ := exists_of_mem_left (List.Forall₂.flip (R := flip Rereads) h) he'
  exact hes e he (hee.hasSeparator hsep)

/-- A list whose entries have no separators is read again entry by entry. -/
theorem exists_parse_toLiteral (hes : ∀ e ∈ es, ¬HasSeparator e) (hne : es ≠ []) :
    ∃ es', List.Forall₂ Rereads es es' ∧
      parse (toLiteral ⟨es⟩) =
        if isAllBlank (Text.join separatorText es') then ⟨[]⟩ else ⟨es'⟩ := by
  obtain ⟨es₁, h₁, hne₁, hopened⟩ :=
    (paired_bracketPair (.inl rfl) (toLiteral ⟨es⟩)).exists_toLiteral hne
  obtain ⟨es', h₂, hne', hclosed⟩ :=
    (paired_bracketPair (.inr rfl) (toLiteral ⟨es₁⟩)).exists_toLiteral hne₁
  have hrereads := forall₂_trans h₁ h₂
  have hnone := not_hasSeparator_of_rereads hrereads hes
  have hsplit := Text.splitOn_join isSeparator_separatorText hne' fun e' he' =>
    not_isInfix_of_not_hasSeparator (hnone e' he')
  rw [parse, inside_toLiteral hopened hclosed hnone hne', hsplit]
  exact ⟨es', hrereads, rfl⟩

theorem inside_infix_normalize (literal : Text) : inside literal <:+: normalize literal := by
  obtain ⟨n, -, hinside⟩ := exists_inside literal
  obtain ⟨a, b, -, -, htrim⟩ := Text.exists_blanks_trim_blanks (normalize literal)
  rw [hinside] at htrim
  exact ⟨a ++ List.replicate n '[', List.replicate n ']' ++ b, by rw [htrim]; simp⟩

/-- Separators part the entries of a list, so no entry has one. -/
theorem not_hasSeparator_of_mem_parse {literal : Text} (he : e ∈ (parse literal).entries) :
    ¬HasSeparator e := by
  rintro ⟨s, hs, hsep⟩
  rw [parse] at he
  split at he
  · cases he
  · have hin := Text.infix_of_mem_splitOn isSeparator_separatorText he
    obtain ⟨a, c, hnormal⟩ := hs.isInfix.trans (hin.trans (inside_infix_normalize literal))
    rw [normalize_eq, List.append_assoc] at hnormal
    have hexact := isPrefix_of_suffix_replace ⟨a, hnormal⟩ (separator_append_ne_none hsep c)
    have hlength : separatorText.length ≤ s.length := by
      obtain ⟨b, b', rest, -, -, rfl⟩ := separator_ne_none_iff.1 hsep
      rw [show separatorText.length = 3 by decide]
      simp only [List.length_cons, List.length_append]
      omega
    have hpre := List.prefix_of_prefix_length_le hexact (List.prefix_append s c) hlength
    exact Text.not_infix_of_mem_splitOn isSeparator_separatorText he
      (hpre.isInfix.trans hs.isInfix)

end PodList
end HeadJob
