import HeadJob.Text.Pattern
import HeadJob.Proofs.Text.Line

/-!
What matching and replacing leave of a text.

A match is found where nothing before it reaches into it.  What a replacement does to a text is told
match by match and character by character, so a relation that both keep holds between a text and what
becomes of it.
-/

namespace HeadJob
namespace Pattern

variable {α : Type} {p : Pattern α}

/-- A match takes at least one character, and no more than there are. -/
def Advances (p : Pattern α) : Prop := ∀ t a n, p t = some (a, n) → 0 < n ∧ n ≤ t.length

theorem exactly_eq_some_iff {w t : Text} {a : Unit} {n : Nat} :
    exactly w t = some (a, n) ↔ w ≠ [] ∧ n = w.length ∧ ∃ rest, t = w ++ rest := by
  cases w with
  | nil => simp [exactly]
  | cons c w =>
    rw [exactly]
    split
    · next hpre =>
      obtain ⟨rest, rfl⟩ := List.isPrefixOf_iff_prefix.1 hpre
      simp [eq_comm]
    · next hpre =>
      rw [List.isPrefixOf_iff_prefix] at hpre
      refine ⟨(fun h => nomatch h), fun ⟨_, _, rest, h⟩ => ?_⟩
      exact absurd ⟨rest, h.symm⟩ hpre

theorem advances_exactly (w : Text) : (exactly w).Advances := by
  intro t a n h
  obtain ⟨hw, rfl, rest, rfl⟩ := exactly_eq_some_iff.1 h
  exact ⟨List.length_pos_iff.2 hw, by simp⟩

theorem ofReader_eq_some_iff {read : Text → Option (α × Text)} {t : Text} {a : α} {n : Nat} :
    ofReader read t = some (a, n) ↔ ∃ rest, read t = some (a, rest) ∧ n = t.length - rest.length := by
  rw [ofReader, Option.map_eq_some_iff]
  constructor
  · rintro ⟨⟨b, rest⟩, hread, heq⟩
    obtain ⟨rfl, rfl⟩ := Prod.mk.inj heq
    exact ⟨rest, hread, rfl⟩
  · rintro ⟨rest, hread, rfl⟩
    exact ⟨(a, rest), hread, rfl⟩

/-- A relation that characters and replaced matches keep holds of the whole replacement. -/
theorem replace_induction (hp : p.Advances) (f : α → Text) {Q : Text → Text → Prop} (hnil : Q [] [])
    (hchar : ∀ c t u, p (c :: t) = none → Q t u → Q (c :: t) (c :: u))
    (hhit : ∀ t a n u, p t = some (a, n) → Q (t.drop n) u → Q t (f a ++ u)) (t : Text) :
    Q t (p.replace f t) := by
  -- the induction is on the length, since a match takes several characters at once
  induction hlen : t.length using Nat.strongRecOn generalizing t with
  | ind k ih =>
    cases t with
    | nil => exact hnil
    | cons c t =>
      cases hm : p (c :: t) with
      | none =>
        have hrest := ih t.length (by rw [← hlen]; simp) t rfl
        rw [replace, cut_of_no_match hm]
        exact hchar c t _ hm hrest
      | some m =>
        obtain ⟨a, n⟩ := m
        obtain ⟨hpos, hle⟩ := hp _ a n hm
        have hrest := ih ((c :: t).drop n).length
          (by rw [List.length_drop, ← hlen]; simp only [List.length_cons] at *; omega) _ rfl
        rw [replace, cut_of_match (List.cons_ne_nil c t) hpos hm]
        exact hhit _ a n _ hm hrest

/-- The matches of the pattern are these texts, whatever stands behind them. -/
def Matches (p : Pattern Unit) (M : Text → Prop) : Prop :=
  ∀ t n, p t = some ((), n) ↔ ∃ f rest, M f ∧ t = f ++ rest ∧ n = f.length

theorem Matches.replace_induction {p : Pattern Unit} {M : Text → Prop} (hM : p.Matches M)
    (hp : p.Advances) (w : Text) {Q : Text → Text → Prop} (hnil : Q [] [])
    (hchar : ∀ c t u, p (c :: t) = none → Q t u → Q (c :: t) (c :: u))
    (hmatch : ∀ f t u, M f → Q t u → Q (f ++ t) (w ++ u)) (t : Text) :
    Q t (p.replace (fun _ => w) t) := by
  refine Pattern.replace_induction hp _ hnil hchar (fun t a n u hn h => ?_) t
  obtain ⟨f, rest, hf, rfl, rfl⟩ := (hM t n).1 hn
  rw [List.drop_left] at h
  exact hmatch f rest u hf h

/-- Where no match reaches over a place, a text is cut on its two sides apart. -/
theorem cut_append (hp : p.Advances) {u t : Text}
    (h : ∀ s, s ≠ [] → s <:+ u → p (s ++ t) = p s) : p.cut (u ++ t) = p.cut u ++ p.cut t := by
  induction hlen : u.length using Nat.strongRecOn generalizing u with
  | ind k ih =>
    cases u with
    | nil => rfl
    | cons c u =>
      have hsame := h _ (List.cons_ne_nil c u) (List.suffix_refl _)
      cases hm : p (c :: u) with
      | none =>
        rw [hm] at hsame
        have hrest := ih u.length (by rw [← hlen]; simp)
          (fun s hs hsuf => h s hs (hsuf.trans (List.suffix_cons c u))) rfl
        rw [List.cons_append] at hsame ⊢
        rw [cut_of_no_match hsame, cut_of_no_match hm, hrest, List.cons_append]
      | some hit =>
        obtain ⟨a, n⟩ := hit
        rw [hm] at hsame
        obtain ⟨hpos, hle⟩ := hp _ a n hm
        have hrest := ih ((c :: u).drop n).length
          (by rw [List.length_drop, ← hlen]; simp only [List.length_cons] at *; omega)
          (fun s hs hsuf => h s hs (hsuf.trans (List.drop_suffix n _))) rfl
        rw [cut_of_match (by simp) hpos hsame, cut_of_match (by simp) hpos hm,
          List.drop_append_of_le_length hle, hrest, List.cons_append]

/-- Where no match begins, a replacement goes on behind. -/
theorem replace_append_of_none (f : α → Text) {u t : Text}
    (h : ∀ s, s ≠ [] → s <:+ u → p (s ++ t) = none) :
    p.replace f (u ++ t) = u ++ p.replace f t := by
  induction u with
  | nil => rfl
  | cons c u ih =>
    have hrest := ih fun s hs hsuf => h s hs (hsuf.trans (List.suffix_cons c u))
    have hnone : p (c :: (u ++ t)) = none := h _ (List.cons_ne_nil c u) (List.suffix_refl _)
    rw [List.cons_append, replace, cut_of_no_match hnone, List.flatMap_cons]
    exact congrArg (c :: ·) hrest

/-! ## What matches find -/

theorem exists_of_mem_hits (hp : p.Advances) {a : α} {t : Text} (h : a ∈ p.hits t) :
    ∃ front s n, t = front ++ s ∧ p s = some (a, n) := by
  induction hlen : t.length using Nat.strongRecOn generalizing t with
  | ind k ih =>
    cases t with
    | nil => cases h
    | cons c t =>
      cases hm : p (c :: t) with
      | none =>
        rw [hits, cut_of_no_match hm] at h
        obtain ⟨front, s, n, rfl, hs⟩ := ih t.length (by rw [← hlen]; simp) h rfl
        exact ⟨c :: front, s, n, rfl, hs⟩
      | some m =>
        obtain ⟨b, n⟩ := m
        obtain ⟨hpos, hle⟩ := hp _ b n hm
        rw [hits, cut_of_match (List.cons_ne_nil c t) hpos hm] at h
        rcases List.mem_cons.1 h with rfl | h
        · exact ⟨[], _, n, rfl, hm⟩
        · obtain ⟨front, s, m, hdrop, hs⟩ := ih ((c :: t).drop n).length
            (by rw [List.length_drop, ← hlen]; simp only [List.length_cons] at *; omega) h rfl
          refine ⟨(c :: t).take n ++ front, s, m, ?_, hs⟩
          rw [List.append_assoc, ← hdrop, List.take_append_drop]

/-- A match is found unless one that begins before it reaches into it. -/
theorem mem_hits_append (hp : p.Advances) {a : α} {n : Nat} {t : Text} (ht : t ≠ [])
    (h : p t = some (a, n)) (front : Text)
    (hfront : ∀ s, s ≠ [] → s <:+ front → ∀ b m, p (s ++ t) = some (b, m) → m ≤ s.length) :
    a ∈ p.hits (front ++ t) := by
  induction hlen : front.length using Nat.strongRecOn generalizing front with
  | ind k ih =>
    cases front with
    | nil =>
      rw [List.nil_append, hits, cut_of_match ht (hp t a n h).1 h]
      exact List.mem_cons_self
    | cons c front =>
      cases hm : p (c :: front ++ t) with
      | none =>
        have hrest := ih front.length (by rw [← hlen]; simp) front
          (fun s hs hsuf => hfront s hs (hsuf.trans (List.suffix_cons c front))) rfl
        rw [List.cons_append] at hm ⊢
        rw [hits, cut_of_no_match hm]
        exact hrest
      | some m =>
        obtain ⟨b, m⟩ := m
        have hpos := (hp _ b m hm).1
        have hle := hfront _ (List.cons_ne_nil c front) (List.suffix_refl _) b m hm
        have hrest := ih ((c :: front).drop m).length
          (by rw [List.length_drop, ← hlen]; simp only [List.length_cons] at *; omega)
          ((c :: front).drop m)
          (fun s hs hsuf => hfront s hs (hsuf.trans (List.drop_suffix m _))) rfl
        rw [hits, cut_of_match (by simp) hpos hm, List.drop_append_of_le_length hle]
        exact List.mem_cons_of_mem _ hrest

theorem hits_cons_of_none {c : Char} {t : Text} (h : p (c :: t) = none) :
    p.hits (c :: t) = p.hits t := by
  rw [hits, cut_of_no_match h]
  rfl

theorem hits_of_match {t : Text} {a : α} {n : Nat} (ht : t ≠ []) (hn : 0 < n)
    (h : p t = some (a, n)) : p.hits t = a :: p.hits (t.drop n) := by
  rw [hits, cut_of_match ht hn h]
  rfl

theorem hits_append (hp : p.Advances) {u t : Text}
    (h : ∀ s, s ≠ [] → s <:+ u → p (s ++ t) = p s) : p.hits (u ++ t) = p.hits u ++ p.hits t := by
  rw [hits, cut_append hp h, List.filterMap_append]
  rfl

theorem hits_eq_nil {t : Text} (h : ∀ s, s <:+ t → s ≠ [] → p s = none) : p.hits t = [] := by
  induction t with
  | nil => rfl
  | cons c t ih =>
    rw [hits, cut_of_no_match (h _ (List.suffix_refl _) (List.cons_ne_nil c t))]
    exact ih fun s hs => h s (hs.trans (List.suffix_cons c t))

end Pattern

/-! ## Splitting and joining -/

namespace Piece

/-- Texts that are joined by what parted them are put together again. -/
theorem join_between {α : Type} (sep : Text) (ps : List (Piece α)) :
    Text.join sep (between ps) = ps.flatMap (text fun _ => sep) := by
  have hcons : ∀ (l : Text) (ls : List Text), ls ≠ [] →
      Text.join sep (l :: ls) = l ++ sep ++ Text.join sep ls :=
    fun _ _ hls => List.intercalate_cons_of_ne_nil hls
  induction ps with
  | nil => rfl
  | cons p ps ih =>
    have hne := between_ne_nil ps
    cases p with
    | hit a => rw [between, hcons [] _ hne, ih]; rfl
    | char c =>
      rw [between, List.flatMap_cons, ← ih]
      cases hls : between ps with
      | nil => exact absurd hls hne
      | cons l ls =>
        cases ls with
        | nil => simp [Text.consLine, Text.join, List.intercalate, text]
        | cons l' ls => simp [Text.consLine, hcons, text]

end Piece

namespace Text

theorem replaceAll_self (w t : Text) : replaceAll w w t = t := by
  refine (Pattern.replace_induction (Pattern.advances_exactly w) (fun _ => w)
    (Q := fun t u => u = t) rfl (fun c t u _ h => by rw [h]) (fun t a n u hn h => ?_) t)
  obtain ⟨-, rfl, rest, rfl⟩ := Pattern.exactly_eq_some_iff.1 hn
  rw [h, List.drop_left]

theorem join_splitOn (sep t : Text) : join sep (splitOn sep t) = t := by
  rw [splitOn, Pattern.split, Piece.join_between]
  exact replaceAll_self sep t

theorem join_concat (sep : Text) {ls : List Text} (hls : ls ≠ []) (l : Text) :
    join sep (ls ++ [l]) = join sep ls ++ sep ++ l := by
  induction ls with
  | nil => exact absurd rfl hls
  | cons m ls ih =>
    cases ls with
    | nil => simp [join]
    | cons n ls =>
      have hrest := ih (List.cons_ne_nil n ls)
      rw [join, join, List.intercalate_cons_cons, List.cons_append, List.cons_append,
        List.intercalate_cons_cons]
      rw [join, join, List.cons_append] at hrest
      rw [hrest]
      simp only [List.append_assoc]

/-- A text that ends in a place where replacements cannot reach stays in the text. -/
theorem exists_replaceAll_append {old new r : Text} (hold : ∀ c ∈ old.head?, c ∉ r)
    (hr : ∀ c ∈ r.head?, c ∉ old) (a b : Text) :
    ∃ a' b', replaceAll old new (a ++ r ++ b) = a' ++ r ++ b' := by
  have hall := Pattern.replace_induction (Pattern.advances_exactly old) (fun _ => new)
    (Q := fun t u => (∀ s b, s <:+ r → t = s ++ b → ∃ b', u = s ++ b') ∧
      ∀ a b, t = a ++ r ++ b → ∃ a' b', u = a' ++ r ++ b')
    ?_ ?_ ?_ (a ++ r ++ b)
  · exact hall.2 a b rfl
  · constructor
    · intro s b _ h
      rw [List.nil_eq, List.append_eq_nil_iff] at h
      exact ⟨[], by rw [h.1]; rfl⟩
    · intro a b h
      rw [List.nil_eq, List.append_eq_nil_iff, List.append_eq_nil_iff] at h
      exact ⟨[], [], by rw [h.1.2]; rfl⟩
  · rintro c t u - ⟨hsuffix, hinfix⟩
    have hstart : ∀ s b, s <:+ r → c :: t = s ++ b → ∃ b', c :: u = s ++ b' := by
      intro s b hs h
      cases s with
      | nil => exact ⟨c :: u, rfl⟩
      | cons d s =>
        injection h with hc ht
        obtain ⟨b', rfl⟩ := hsuffix s b ((List.suffix_cons d s).trans hs) ht
        exact ⟨b', by rw [hc]; rfl⟩
    refine ⟨hstart, fun a b h => ?_⟩
    cases a with
    | nil =>
      obtain ⟨b', hb'⟩ := hstart r b (List.suffix_refl r) h
      exact ⟨[], b', hb'⟩
    | cons d a =>
      injection h with hc ht
      obtain ⟨a', b', rfl⟩ := hinfix a b ht
      exact ⟨d :: a', b', by rw [hc]; simp⟩
  · rintro t _ n u hn ⟨-, hinfix⟩
    obtain ⟨hne, rfl, rest, rfl⟩ := Pattern.exactly_eq_some_iff.1 hn
    rw [List.drop_left] at hinfix
    obtain ⟨o, old, rfl⟩ := List.exists_cons_of_ne_nil hne
    constructor
    · intro s b hs h
      cases s with
      | nil => exact ⟨new ++ u, rfl⟩
      | cons d s =>
        injection h with hc _
        exact absurd (hs.subset (hc ▸ List.mem_cons_self)) (hold o rfl)
    · intro a b h
      -- the replaced text ends in front of `r`, since it does not hold the first character of `r`
      rcases List.append_eq_append_iff.1 (h.trans (List.append_assoc a r b)) with
        ⟨x, hx, hrest⟩ | ⟨x, hx, hrest⟩
      · obtain ⟨a', b', rfl⟩ := hinfix x b (by rw [hrest, List.append_assoc])
        exact ⟨new ++ a', b', by simp⟩
      · cases x with
        | nil =>
          obtain ⟨a', b', rfl⟩ := hinfix [] b (by simpa using hrest.symm)
          exact ⟨new ++ a', b', by simp⟩
        | cons d x =>
          cases r with
          | nil => exact ⟨[], new ++ u, by simp⟩
          | cons e r =>
            injection hrest with hc _
            exact absurd (by rw [hx, hc]; simp) (hr e rfl)

theorem notMem_replaceAll {old new t : Text} {c : Char} (hnew : c ∉ new) (ht : c ∉ t) :
    c ∉ replaceAll old new t := by
  have hall := Pattern.replace_induction (Pattern.advances_exactly old) (fun _ => new)
    (Q := fun t u => c ∉ t → c ∉ u) id
    (fun d t u _ h hd => by
      rw [List.mem_cons, not_or] at hd ⊢
      exact ⟨hd.1, h hd.2⟩)
    (fun t a n u _ h hc => by
      rw [List.mem_append, not_or]
      exact ⟨hnew, h fun hmem => hc (List.mem_of_mem_drop hmem)⟩) t
  exact hall ht

end Text
end HeadJob
