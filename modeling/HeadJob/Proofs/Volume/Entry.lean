import HeadJob.Proofs.Volume.Layout

/-!
The volumes that an entry of a list holds.

A volume is written with its claim and its path in quotes, each behind a name and a colon.  No part of a
volume on the command line holds a colon, so an entry that was written for one holds that one alone.
-/

namespace HeadJob

namespace Volume

variable {v w : Volume} {a : Text}

/-- What holds of every volume that is given on the command line. -/
structure IsGiven (v : Volume) : Prop where
  claim_ne_nil : v.claim ≠ []
  path_ne_nil : v.path ≠ []
  colon_claim : ':' ∉ v.claim
  colon_path : ':' ∉ v.path

theorem isGiven_of_ofArgument? (h : ofArgument? a = some v) : v.IsGiven := by
  unfold ofArgument? at h
  split at h
  · next claim path hsplit =>
    have hpart : ∀ part ∈ [claim, path], ':' ∉ part := by
      intro part hpart hmem
      rw [← hsplit] at hpart
      have hseparator : Text.IsSeparator [':'] := ⟨':', [], rfl, List.not_mem_nil⟩
      refine Text.not_infix_of_mem_splitOn hseparator hpart ?_
      obtain ⟨s, t, rfl⟩ := List.append_of_mem hmem
      exact ⟨s, t, by simp⟩
    split at h
    · cases h
    · next hne =>
      cases h
      obtain ⟨hclaim, hpath⟩ := not_or.1 hne
      exact ⟨hclaim, hpath, hpart _ (by simp), hpart _ (by simp)⟩
  · cases h

theorem argument_of_ofArgument? (h : ofArgument? a = some v) : v.argument = a := by
  unfold ofArgument? at h
  split at h
  · next claim path hsplit =>
    split at h
    · cases h
    · cases h
      have hjoin := Text.join_splitOn [':'] a
      rwa [hsplit, Text.join, List.intercalate_cons_cons, List.intercalate_singleton, List.append_assoc]
        at hjoin
  · cases h

/-- Claim and path hold neither quote marks nor brackets. -/
def IsClear (v : Volume) : Prop :=
  ∀ c ∈ v.claim ++ v.path, isQuoteMark c = false ∧ c ≠ '[' ∧ c ≠ ']'

instance (v : Volume) : Decidable v.IsClear := List.decidableBAll _ _

/-- Neither the claim nor the path holds a bracket. -/
def IsUnbracketed (v : Volume) : Prop :=
  PodList.IsBracketFree v.claim ∧ PodList.IsBracketFree v.path

instance (v : Volume) : Decidable v.IsUnbracketed := inferInstanceAs (Decidable (_ ∧ _))

theorem IsClear.isUnbracketed (hv : v.IsClear) : v.IsUnbracketed := by
  have hfree : ∀ t : Text, t ⊆ v.claim ++ v.path → PodList.IsBracketFree t := fun t ht =>
    ⟨fun h => (hv _ (ht h)).2.1 rfl, fun h => (hv _ (ht h)).2.2 rfl⟩
  exact ⟨hfree _ (List.subset_append_left _ _), hfree _ (List.subset_append_right _ _)⟩

theorem IsClear.quote_notMem (hv : v.IsClear) : '\'' ∉ v.claim ∧ '\'' ∉ v.path :=
  ⟨fun h => absurd (hv _ (List.mem_append_left _ h)).1 (by decide),
    fun h => absurd (hv _ (List.mem_append_right _ h)).1 (by decide)⟩

theorem entry_eq (v : Volume) :
    v.entry = "volumeClaim".toList ++ ':' :: (('\'' :: (v.claim ++ '\'' :: ", mountPath".toList)) ++
      ':' :: ('\'' :: (v.path ++ ['\'']))) := by
  have hspelled : ∀ x y p q s : Text, p = x ++ [':', '\''] → s ++ q = y ++ [':', '\''] →
      p ++ v.claim ++ ['\''] ++ s ++ (q ++ v.path ++ ['\'']) =
        x ++ ':' :: (('\'' :: (v.claim ++ '\'' :: y)) ++ ':' :: ('\'' :: (v.path ++ ['\'']))) := by
    rintro x y _ q s rfl h
    have hpath : s ++ (q ++ v.path ++ ['\'']) = y ++ ':' :: ('\'' :: (v.path ++ ['\''])) := by
      rw [← List.append_assoc, ← List.append_assoc, h]
      simp
    rw [List.append_assoc _ s, hpath]
    simp
  exact hspelled _ _ _ _ _ (by decide) (by decide)

/-- A field, by its name and its string. -/
theorem append_field_append (name : Text) {p : Text} (hp : p = name ++ [':', '\'']) (s x t : Text) :
    s ++ (p ++ x ++ ['\'']) ++ t = (s ++ name) ++ ':' :: ('\'' :: (x ++ '\'' :: t)) := by
  rw [hp]
  simp

theorem append_claimField_append (v : Volume) (s t : Text) :
    s ++ v.claimField ++ t =
      (s ++ "volumeClaim".toList) ++ ':' :: ('\'' :: (v.claim ++ '\'' :: t)) :=
  append_field_append _ (by decide) s v.claim t

theorem append_pathField_append (v : Volume) (s t : Text) :
    s ++ v.pathField ++ t = (s ++ "mountPath".toList) ++ ':' :: ('\'' :: (v.path ++ '\'' :: t)) :=
  append_field_append _ (by decide) s v.path t

/-- What stands before a colon, where there are two, ends at one of them. -/
theorem eq_of_two_colons {u r x y z : Text} (hx : ':' ∉ x) (hy : ':' ∉ y) (hz : ':' ∉ z)
    (h : u ++ ':' :: r = x ++ ':' :: (y ++ ':' :: z)) :
    (u = x ∧ r = y ++ ':' :: z) ∨ (u = x ++ ':' :: y ∧ r = z) := by
  obtain ⟨u, rfl, hfirst⟩ := Text.exists_append_of_notMem hx h
  cases u with
  | nil => exact .inl ⟨List.append_nil x, (List.cons.inj hfirst).2⟩
  | cons c u =>
    obtain ⟨rfl, hrest⟩ := List.cons.inj hfirst
    obtain ⟨u, rfl, hsecond⟩ := Text.exists_append_of_notMem hy hrest
    cases u with
    | nil => exact .inr ⟨by simp, (List.cons.inj hsecond).2⟩
    | cons c u =>
      have hmem : ':' ∈ z := by
        rw [← (List.cons.inj hsecond).2]
        simp
      exact absurd hmem hz

theorem IsGiven.colon_notMem_parts (hw : w.IsGiven) :
    ':' ∉ '\'' :: (w.claim ++ '\'' :: ", mountPath".toList) ∧ ':' ∉ '\'' :: (w.path ++ ['\'']) := by
  have hword : ':' ∉ ", mountPath".toList := by decide
  simp only [List.mem_cons, List.mem_append, not_or, List.not_mem_nil, not_false_eq_true, and_true]
  exact ⟨⟨by decide, hw.colon_claim, by decide, hword⟩, by decide, hw.colon_path, by decide⟩

theorem append_ne_append (s t : Text) {p q : Text} (hp : p ≠ []) (hq : q ≠ [])
    (h : p.getLast? ≠ q.getLast?) : s ++ p ≠ t ++ q := by
  intro heq
  have hlast := congrArg List.getLast? heq
  rw [List.getLast?_append_of_ne_nil _ hp, List.getLast?_append_of_ne_nil _ hq] at hlast
  exact h hlast

section

variable (hv : v.IsClear) (hw : w.IsClear) (hgiven : w.IsGiven)

include hv hw hgiven

theorem claim_eq_of_infix_entry (h : v.claimField <:+: w.entry) : v.claim = w.claim := by
  obtain ⟨s, t, hst⟩ := h
  rw [append_claimField_append, entry_eq] at hst
  obtain ⟨hmiddle, hend⟩ := hgiven.colon_notMem_parts
  rcases eq_of_two_colons (by decide) hmiddle hend hst with ⟨-, hrest⟩ | ⟨hfront, -⟩
  · simp only [List.cons_append, List.append_assoc] at hrest
    exact Text.eq_of_append_cons hv.quote_notMem.1 hw.quote_notMem.1 (List.cons.inj hrest).2
  · -- the name in front of the second colon is that of the path
    have hfront' : s ++ "volumeClaim".toList =
        ("volumeClaim".toList ++ ':' :: '\'' :: (w.claim ++ ['\''])) ++ ", mountPath".toList := by
      rw [hfront]
      simp only [List.cons_append, List.append_assoc, List.nil_append]
    exact absurd hfront' (append_ne_append _ _ (by decide) (by decide) (by decide))

theorem path_eq_of_infix_entry (h : v.pathField <:+: w.entry) : v.path = w.path := by
  obtain ⟨s, t, hst⟩ := h
  rw [append_pathField_append, entry_eq] at hst
  obtain ⟨hmiddle, hend⟩ := hgiven.colon_notMem_parts
  rcases eq_of_two_colons (by decide) hmiddle hend hst with ⟨hfront, -⟩ | ⟨-, hrest⟩
  · -- the name in front of the first colon is that of the claim
    have hfront' : s ++ "mountPath".toList = [] ++ "volumeClaim".toList := hfront
    exact absurd hfront' (append_ne_append _ _ (by decide) (by decide) (by decide))
  · exact Text.eq_of_append_cons hv.quote_notMem.2 hw.quote_notMem.2 (List.cons.inj hrest).2

end

theorem claimField_infix_entry (v : Volume) : v.claimField <:+: v.entry :=
  ⟨[], ", ".toList ++ v.pathField, by rw [entry, List.nil_append, List.append_assoc]⟩

theorem pathField_infix_entry (v : Volume) : v.pathField <:+: v.entry :=
  (List.suffix_append _ _).isInfix

theorem IsClear.isString (hv : v.IsClear) (hgiven : v.IsGiven) : IsString v.claim ∧ IsString v.path :=
  ⟨⟨hgiven.claim_ne_nil, fun c hc => (hv c (List.mem_append_left _ hc)).1⟩,
    hgiven.path_ne_nil, fun c hc => (hv c (List.mem_append_right _ hc)).1⟩

end Volume

namespace PodList

open Volume (records)

variable {v w : Volume} {e : Text} {es : List Text}

theorem isBracketFree_entry (hv : v.IsUnbracketed) : IsBracketFree v.entry :=
  ⟨Volume.notMem_entry (by decide) hv.1.1 hv.2.1, Volume.notMem_entry (by decide) hv.1.2 hv.2.2⟩

/-! ## What entries hold -/

/-- Whether one entry holds the volume. -/
def entryHolds (e : Text) (v : Volume) : Bool :=
  (Text.occursIn v.claimField e && Text.occursIn v.pathField e) ||
    (records ('[' :: e ++ [']'])).contains v

theorem holds_eq_any (l : PodList) (v : Volume) : l.holds v = l.entries.any (entryHolds · v) := rfl

theorem entryHolds_iff :
    entryHolds e v = true ↔
      (v.claimField <:+: e ∧ v.pathField <:+: e) ∨ v ∈ records ('[' :: (e ++ [']'])) := by
  have hoccurs : ∀ w : Text, Text.occursIn w e = true ↔ w <:+: e := fun w => by
    rw [Text.occursIn_iff]
    exact ⟨fun ⟨a, b, h⟩ => ⟨a, b, h.symm⟩, fun ⟨a, b, h⟩ => ⟨a, b, h.symm⟩⟩
  rw [entryHolds, Bool.or_eq_true, Bool.and_eq_true, hoccurs, hoccurs, List.contains_iff_mem]
  rfl

theorem entryHolds_entry (v : Volume) : entryHolds v.entry v = true :=
  entryHolds_iff.2 (.inl ⟨v.claimField_infix_entry, v.pathField_infix_entry⟩)

/-- The entry that is written for a volume is a record of that one alone. -/
theorem eq_of_mem_records_entry (hw : w.IsClear) (hgiven : w.IsGiven)
    (h : v ∈ records ('[' :: (w.entry ++ [']']))) : v = w := by
  obtain ⟨a, r, b, hentry, hr⟩ := Volume.exists_of_mem_records h
  have hnil : a = [] := by
    have hfree : '[' ∉ w.entry ++ [']'] := by
      rw [List.mem_append, List.mem_singleton, not_or]
      exact ⟨(isBracketFree_entry hw.isUnbracketed).1, by decide⟩
    cases a with
    | nil => rfl
    | cons c a =>
      have hmem : '[' ∈ w.entry ++ [']'] := by
        rw [(List.cons.inj hentry).2]
        cases hr
        simp
      exact absurd hmem hfree
  rw [hnil, List.nil_append] at hentry
  obtain ⟨hclaim, hpath⟩ := hw.isString hgiven
  have hrecord := Volume.record_eq_some_iff.2 ⟨_, [], isRecord_entry hclaim hpath,
    (List.append_nil _).symm, rfl⟩
  have hrecord' := Volume.record_eq_some_iff.2 ⟨r, b, hr, hentry, rfl⟩
  rw [hrecord] at hrecord'
  exact (Prod.mk.inj (Option.some.inj hrecord')).1.symm

theorem entryHolds_entry_iff (hv : v.IsClear) (hw : w.IsClear) (hgiven : w.IsGiven) :
    entryHolds w.entry v = true ↔ v = w := by
  refine ⟨fun h => ?_, fun h => h ▸ entryHolds_entry w⟩
  rcases entryHolds_iff.1 h with ⟨hclaim, hpath⟩ | hmem
  · rw [← show ⟨v.claim, v.path⟩ = v from rfl, Volume.claim_eq_of_infix_entry hv hw hgiven hclaim,
      Volume.path_eq_of_infix_entry hv hw hgiven hpath]
  · exact eq_of_mem_records_entry hw hgiven hmem

/-- Entries that are written for volumes hold those volumes and no others. -/
theorem holds_append_entries (hv : v.IsClear) (l : PodList) {ws : List Volume}
    (hws : ∀ w ∈ ws, w.IsClear ∧ w.IsGiven) :
    holds ⟨l.entries ++ ws.map Volume.entry⟩ v = true ↔ l.holds v = true ∨ v ∈ ws := by
  rw [holds_eq_any, holds_eq_any, List.any_append, Bool.or_eq_true]
  refine or_congr_right ?_
  simp only [List.any_map, List.any_eq_true, Function.comp_apply]
  constructor
  · rintro ⟨w, hw, h⟩
    rwa [(entryHolds_entry_iff hv (hws w hw).1 (hws w hw).2).1 h]
  · exact fun h => ⟨v, h, entryHolds_entry v⟩

end PodList
end HeadJob
