import HeadJob.Proofs.Text.Match

/-!
Texts that are split at a separator.

A separator whose first character does not come again in it never overlaps another one.  So a text is
split at any of them, no part holds one, and parts that hold none come back when they are joined.
-/

namespace HeadJob

namespace Piece

variable {α : Type}

theorem between_append_hit (ps qs : List (Piece α)) (a : α) :
    between (ps ++ hit a :: qs) = between ps ++ between qs := by
  induction ps with
  | nil => rfl
  | cons p ps ih =>
    cases p with
    | hit b => rw [List.cons_append, between, between, ih, List.cons_append]
    | char c =>
      rw [List.cons_append, between, between, ih]
      cases hls : between ps with
      | nil => exact absurd hls (between_ne_nil ps)
      | cons l ls => rfl

end Piece

namespace Text

variable {w t a b e : Text}

theorem join_cons_of_ne_nil (sep l : Text) {ls : List Text} (hls : ls ≠ []) :
    join sep (l :: ls) = l ++ sep ++ join sep ls :=
  List.intercalate_cons_of_ne_nil hls

theorem splitOn_of_not_isInfix (h : ¬w <:+: t) : splitOn w t = [t] := by
  induction t with
  | nil => rfl
  | cons c t ih =>
    have hrest := ih fun hin => h (hin.trans (List.suffix_cons c t).isInfix)
    have hnone : Pattern.exactly w (c :: t) = none := by
      refine Option.eq_none_iff_forall_ne_some.2 fun hit hn => ?_
      obtain ⟨-, -, rest, hrest⟩ := Pattern.exactly_eq_some_iff.1 hn
      exact h ⟨[], rest, by rw [hrest, List.nil_append]⟩
    rw [splitOn, Pattern.split] at hrest
    rw [splitOn, Pattern.split, Pattern.cut_of_no_match hnone, Piece.between, hrest]
    rfl

/-- A separator, told by its first character. -/
structure IsSeparator (w : Text) : Prop where
  exists_cons : ∃ c v, w = c :: v ∧ c ∉ v

theorem IsSeparator.ne_nil (hw : IsSeparator w) : w ≠ [] := by
  obtain ⟨c, v, rfl, -⟩ := hw
  exact List.cons_ne_nil c v

/-- Nothing that begins in front of a separator reaches into it. -/
theorem IsSeparator.exactly_append (hw : IsSeparator w) {s : Text} (hs : s ≠ []) (t : Text) :
    Pattern.exactly w (s ++ (w ++ t)) = Pattern.exactly w s := by
  refine Option.ext fun ⟨_, n⟩ => ?_
  rw [Pattern.exactly_eq_some_iff, Pattern.exactly_eq_some_iff]
  refine and_congr_right fun hne => and_congr_right fun _ => ⟨?_, ?_⟩
  · rintro ⟨rest, hrest⟩
    rcases List.append_eq_append_iff.1 hrest with ⟨x, hx, hv⟩ | ⟨x, rfl, -⟩
    · cases x with
      | nil => exact ⟨[], by rw [hx]; simp⟩
      | cons d x =>
        -- the second separator would begin within the first
        obtain ⟨c, v, rfl, hc⟩ := hw
        obtain ⟨c', s, rfl⟩ := List.exists_cons_of_ne_nil hs
        have hd : c = d := (List.cons.inj hv).1
        have hv' : v = s ++ d :: x := (List.cons.inj hx).2
        exact absurd (by rw [hv', hd]; simp) hc
    · exact ⟨x, rfl⟩
  · rintro ⟨rest, rfl⟩
    exact ⟨rest ++ (w ++ t), by simp⟩

theorem splitOn_append (hw : IsSeparator w) (a b : Text) :
    splitOn w (a ++ w ++ b) = splitOn w a ++ splitOn w b := by
  have hhit : Pattern.exactly w (w ++ b) = some ((), w.length) :=
    Pattern.exactly_eq_some_iff.2 ⟨hw.ne_nil, rfl, b, rfl⟩
  have hcut := Pattern.cut_of_match (by simp [hw.ne_nil]) (List.length_pos_iff.2 hw.ne_nil) hhit
  rw [List.drop_left] at hcut
  rw [splitOn, Pattern.split, List.append_assoc,
    Pattern.cut_append (Pattern.advances_exactly w) fun s hs _ => hw.exactly_append hs b, hcut,
    Piece.between_append_hit]
  rfl

/-- What holds of texts without separators, and passes on when two texts are joined by one, holds of all
texts. -/
theorem split_induction (hw : w ≠ []) {P : Text → Prop} (hnone : ∀ t, ¬w <:+: t → P t)
    (happend : ∀ a b, P a → P b → P (a ++ w ++ b)) (t : Text) : P t := by
  induction hlen : t.length using Nat.strongRecOn generalizing t with
  | ind k ih =>
    by_cases hin : w <:+: t
    · obtain ⟨a, b, rfl⟩ := hin
      have hpos := List.length_pos_iff.2 hw
      simp only [List.length_append] at hlen
      exact happend a b (ih a.length (by omega) a rfl) (ih b.length (by omega) b rfl)
    · exact hnone t hin

theorem not_infix_of_mem_splitOn (hw : IsSeparator w) (h : e ∈ splitOn w t) : ¬w <:+: e := by
  induction t using split_induction hw.ne_nil with
  | hnone t hin =>
    rw [splitOn_of_not_isInfix hin, List.mem_singleton] at h
    rwa [h]
  | happend a b ha hb =>
    rw [splitOn_append hw, List.mem_append] at h
    exact h.elim ha hb

theorem infix_of_mem_splitOn (hw : IsSeparator w) (h : e ∈ splitOn w t) : e <:+: t := by
  induction t using split_induction hw.ne_nil with
  | hnone t hin =>
    rw [splitOn_of_not_isInfix hin, List.mem_singleton] at h
    exact h ▸ List.infix_refl t
  | happend a b ha hb =>
    rw [splitOn_append hw, List.mem_append] at h
    rcases h with h | h
    · exact (ha h).trans ⟨[], w ++ b, by simp⟩
    · exact (hb h).trans (List.suffix_append _ _).isInfix

theorem splitOn_join (hw : IsSeparator w) {es : List Text} (hes : es ≠ [])
    (h : ∀ e ∈ es, ¬w <:+: e) : splitOn w (join w es) = es := by
  induction es with
  | nil => exact absurd rfl hes
  | cons e es ih =>
    have hhead := splitOn_of_not_isInfix (h e List.mem_cons_self)
    cases es with
    | nil => rw [join, List.intercalate_singleton, hhead]
    | cons e' es =>
      rw [join_cons_of_ne_nil w e (List.cons_ne_nil e' es), splitOn_append hw, hhead,
        ih (List.cons_ne_nil e' es) fun x hx => h x (List.mem_cons_of_mem e hx)]
      rfl

end Text
end HeadJob
