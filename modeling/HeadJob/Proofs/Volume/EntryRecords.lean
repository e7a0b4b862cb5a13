import Mathlib.Algebra.Group.Nat.Even
import HeadJob.Proofs.Volume.Reread

/-!
The records of a list literal, found in its entries one by one.

A string of a record may hold brackets and commas, so a record that begins in one entry could end in
another.  It does not where each entry has its quote marks in pairs: the bracket behind an entry then
stands outside strings, and a record that has come that far ends there.
-/

namespace HeadJob
namespace Volume

open Text (isBlank isAllBlank)
open PodList (IsBracketFree IsLayout Spaced bracketed)

variable {v : Volume} {b e r s t rest : Text} {es : List Text} {q : Char}

/-! ## Quote marks in pairs -/

def HasQuotePairs (t : Text) : Prop := Even (t.countP isQuoteMark)

instance (t : Text) : Decidable (HasQuotePairs t) := inferInstanceAs (Decidable (Even _))

theorem hasQuotePairs_of_forall (ht : ∀ c ∈ t, isQuoteMark c = false) : HasQuotePairs t := by
  have hzero : t.countP isQuoteMark = 0 := List.countP_eq_zero.2 fun c hc => by simp [ht c hc]
  rw [HasQuotePairs, hzero]
  exact Even.zero

theorem hasQuotePairs_append_cons (hs : ∀ c ∈ s, isQuoteMark c = false) (hq : isQuoteMark q = true)
    (t : Text) : HasQuotePairs (s ++ q :: t) ↔ ¬HasQuotePairs t := by
  have hzero : s.countP isQuoteMark = 0 := List.countP_eq_zero.2 fun c hc => by simp [hs c hc]
  rw [HasQuotePairs, List.countP_append, hzero, Nat.zero_add, List.countP_cons_of_pos hq,
    Nat.even_add_one]
  exact Iff.rfl

/-- An entry that begins inside a string and ends outside of strings holds the end of that string. -/
theorem exists_append_of_open {z : Text} (he : ¬HasQuotePairs e)
    (hs : ∀ c ∈ s, isQuoteMark c = false) (hq : isQuoteMark q = true)
    (h : e ++ ']' :: t = s ++ q :: z) : ∃ e', e = s ++ q :: e' ∧ e' ++ ']' :: t = z := by
  rcases List.append_eq_append_iff.1 h with ⟨y, rfl, -⟩ | ⟨y, rfl, hy⟩
  · exact absurd (hasQuotePairs_of_forall fun c hc => hs c (List.mem_append_left y hc)) he
  · cases y with
    | nil =>
      rw [(List.cons.inj hy).1] at hq
      exact absurd hq (by decide)
    | cons d y =>
      obtain ⟨rfl, rfl⟩ := List.cons.inj hy
      exact ⟨y, rfl, rfl⟩

/-! ## One entry -/

/-- A record that begins in front of an entry is the whole entry, with its brackets. -/
theorem IsRecord.eq_bracketed (hr : IsRecord v r) (he : ']' ∉ e) (hpairs : HasQuotePairs e)
    (h : bracketed e ++ t = r ++ rest) : r = bracketed e := by
  obtain ⟨g, b, m, b', q₁, q₂, q₃, q₄, hg, hq₁, hclaim, hq₂, hb, hm, hq₃, hpath, hq₄, hb'⟩ := hr
  have hbracket : ∀ q, Volume.isQuoteMark q = true → ']' ≠ q := by
    rintro q hq rfl
    exact absurd hq (by decide)
  simp only [bracketed, List.cons_append, List.append_assoc, List.cons.injEq, true_and,
    List.nil_append] at h
  -- each part of the record lies in the entry, and each quote mark changes whether one is left open
  obtain ⟨e₁, rfl, h₁⟩ := Text.exists_append_of_notMem (p := g ++ [q₁]) (by
    rw [List.mem_append, List.mem_singleton, not_or]
    exact ⟨hg.notMem isName_volumeclaim (by decide) (by decide) (by decide), hbracket q₁ hq₁⟩)
    (by simpa using h)
  rw [List.append_assoc, List.singleton_append,
    hasQuotePairs_append_cons (hg.isQuoteMark isName_volumeclaim) hq₁] at hpairs
  obtain ⟨e₂, rfl, h₂⟩ := exists_append_of_open hpairs hclaim.2 hq₂ h₁
  rw [hasQuotePairs_append_cons hclaim.2 hq₂, not_not] at hpairs
  obtain ⟨e₃, rfl, h₃⟩ := Text.exists_append_of_notMem (p := b ++ ',' :: m ++ [q₃]) (by
    simp only [List.mem_append, List.mem_cons, not_or, List.not_mem_nil, not_false_eq_true,
      and_true]
    exact ⟨⟨notMem_of_isAllBlank hb (by decide), by decide,
      hm.notMem isName_mountpath (by decide) (by decide) (by decide)⟩, hbracket q₃ hq₃⟩)
    (by simpa using h₂)
  rw [List.append_assoc, List.singleton_append,
    hasQuotePairs_append_cons (isQuoteMark_of_comma hb hm) hq₃] at hpairs
  obtain ⟨e₄, rfl, h₄⟩ := exists_append_of_open hpairs hpath.2 hq₄ h₃
  have he₄ : ']' ∉ e₄ := fun hc => he (by simp [hc])
  have hend : e₄ = b' := Text.eq_of_append_cons he₄ (notMem_of_isAllBlank hb' (by decide)) h₄
  rw [hend]
  simp [bracketed]

theorem record_bracketed_append (he : ']' ∉ e) (hpairs : HasQuotePairs e) (t : Text) :
    record (bracketed e ++ t) = record (bracketed e) := by
  refine Option.ext fun ⟨v, n⟩ => ?_
  rw [record_eq_some_iff, record_eq_some_iff]
  constructor
  · rintro ⟨r, rest, hr, h, rfl⟩
    obtain rfl := hr.eq_bracketed he hpairs h
    exact ⟨_, [], hr, (List.append_nil _).symm, rfl⟩
  · rintro ⟨r, rest, hr, h, rfl⟩
    exact ⟨r, rest ++ t, hr, by rw [h, List.append_assoc], rfl⟩

theorem beginsWith_record : record.BeginsWith '[' := by
  intro t ht
  refine Option.eq_none_iff_forall_ne_some.2 fun ⟨v, n⟩ hn => ht ?_
  obtain ⟨r, rest, hr, rfl, -⟩ := record_eq_some_iff.1 hn
  obtain ⟨m, rfl, -⟩ := hr.exists_inside
  rfl

/-- An entry without brackets in it is one record or none. -/
theorem length_records_bracketed_le (he : '[' ∉ e) : (records (bracketed e)).length ≤ 1 := by
  have hrest : '[' ∉ e ++ [']'] := by simp [he]
  cases h : record (bracketed e) with
  | none =>
    rw [records, bracketed, Pattern.hits_cons_of_none h, beginsWith_record.hits_eq_nil hrest]
    exact Nat.zero_le 1
  | some hit =>
    obtain ⟨v, n⟩ := hit
    have hpos := (advances_record _ v n h).1
    have htail : '[' ∉ (bracketed e).drop n := by
      obtain ⟨n, rfl⟩ : ∃ m, n = m + 1 := ⟨n - 1, by omega⟩
      exact fun hc => hrest (List.mem_of_mem_drop hc)
    rw [records, Pattern.hits_of_match (t := bracketed e) (List.cons_ne_nil _ _) hpos h,
      beginsWith_record.hits_eq_nil htail]
    exact le_rfl

/-! ## Texts in a row -/

theorem records_append_of_notMem (hs : '[' ∉ s) (t : Text) : records (s ++ t) = records t :=
  beginsWith_record.hits_append advances_record hs t

theorem records_bracketed_append (he : IsBracketFree e) (hpairs : HasQuotePairs e) (t : Text) :
    records (bracketed e ++ t) = records (bracketed e) ++ records t := by
  refine Pattern.hits_append advances_record fun s hs hsuf => ?_
  rcases List.suffix_cons_iff.1 hsuf with rfl | hsuf
  · exact record_bracketed_append he.2 hpairs t
  · have hopening : '[' ∉ s := fun hc => by
      have hmem := hsuf.subset hc
      simp [he.1] at hmem
    rw [beginsWith_record.eq_none hs hopening, beginsWith_record.eq_none_append hs hopening]

/-- An outer bracket begins no record. -/
theorem records_cons_blanks (hb : isAllBlank b = true) (t : Text) :
    records ('[' :: (b ++ '[' :: t)) = records ('[' :: t) := by
  have hnone : record ('[' :: (b ++ '[' :: t)) = none := by
    refine Option.eq_none_iff_forall_ne_some.2 fun ⟨v, n⟩ hn => ?_
    obtain ⟨r, rest, ⟨g, _, _, _, q, _, _, _, hg, hq, -, -, -, -, -, -, -, -⟩, h, -⟩ :=
      record_eq_some_iff.1 hn
    simp only [List.cons_append, List.append_assoc, List.cons.injEq, true_and] at h
    obtain ⟨b', rfl, -⟩ := Text.exists_append_of_notMem (p := g)
      (hg.notMem isName_volumeclaim (by decide) (by decide) (by decide)) h
    exact notMem_of_isAllBlank hb (by decide) (List.mem_append_left b' hg.colon_mem)
  rw [records, Pattern.hits_cons_of_none hnone]
  exact records_append_of_notMem (notMem_of_isAllBlank hb (by decide)) ('[' :: t)

theorem records_spaced (h : Spaced es t) (hes : ∀ e ∈ es, IsBracketFree e ∧ HasQuotePairs e)
    (rest : Text) :
    records ('[' :: (t ++ ']' :: rest)) =
      es.flatMap (fun e => records (bracketed e)) ++ records rest := by
  induction h with
  | single e =>
    obtain ⟨he, hpairs⟩ := hes e List.mem_cons_self
    rw [List.flatMap_singleton, ← records_bracketed_append he hpairs, bracketed]
    simp
  | @cons e b b' es t hb hb' h ih =>
    obtain ⟨he, hpairs⟩ := hes e List.mem_cons_self
    have hbetween : '[' ∉ b ++ ',' :: b' := by
      simp only [List.mem_append, List.mem_cons, not_or]
      exact ⟨notMem_of_isAllBlank hb (by decide), by decide, notMem_of_isAllBlank hb' (by decide)⟩
    calc records ('[' :: (e ++ ']' :: (b ++ ',' :: (b' ++ '[' :: t)) ++ ']' :: rest))
        = records (bracketed e ++ ((b ++ ',' :: b') ++ '[' :: (t ++ ']' :: rest))) := by
          simp [bracketed]
      _ = records (bracketed e) ++ records ('[' :: (t ++ ']' :: rest)) := by
          rw [records_bracketed_append he hpairs, records_append_of_notMem hbetween]
      _ = (e :: es).flatMap (fun e => records (bracketed e)) ++ records rest := by
          rw [ih fun f hf => hes f (List.mem_cons_of_mem e hf), List.flatMap_cons, List.append_assoc]

theorem records_eq_nil (ht : ':' ∉ t) : records t = [] := by
  refine List.eq_nil_iff_forall_not_mem.2 fun v hv => ht ?_
  obtain ⟨a, r, b, rfl, hr⟩ := exists_of_mem_records hv
  simp [hr.colon_mem]

/-- The records of a list literal are those of its entries, in their order, and each entry has one at
most. -/
theorem records_of_isLayout {literal : Text} (h : IsLayout es literal)
    (hes : ∀ e ∈ es, IsBracketFree e ∧ HasQuotePairs e) :
    records literal = es.flatMap (fun e => records (bracketed e)) ∧
      ∀ e ∈ es, (records (bracketed e)).length ≤ 1 := by
  refine ⟨?_, fun e he => length_records_bracketed_le (hes e he).1.1⟩
  cases h with
  | nil a b c ha hb hc =>
    refine records_eq_nil ?_
    simp only [List.mem_append, List.mem_cons, not_or]
    exact ⟨notMem_of_isAllBlank ha (by decide), by decide, notMem_of_isAllBlank hb (by decide),
      by decide, notMem_of_isAllBlank hc (by decide)⟩
  | @list a b b' c _ t ha hb hb' hc h =>
    have hafter : '[' ∉ b' ++ ']' :: c := by
      simp only [List.mem_append, List.mem_cons, not_or]
      exact ⟨notMem_of_isAllBlank hb' (by decide), by decide, notMem_of_isAllBlank hc (by decide)⟩
    rw [records_append_of_notMem (notMem_of_isAllBlank ha (by decide)), records_cons_blanks hb,
      records_spaced h hes, records, beginsWith_record.hits_eq_nil hafter, List.append_nil]

theorem records_of_isLayout_of_mixed_quotes :
    IsLayout
        ["volumeClaim:'a', mountPath:'/x'".toList, "f".toList,
          "VOLUMECLAIM: \"b' ,mountpath:'/y'".toList]
        " [\n[volumeClaim:'a', mountPath:'/x'] , [f],\t[VOLUMECLAIM: \"b' ,mountpath:'/y'] ]".toList ∧
      records " [\n[volumeClaim:'a', mountPath:'/x'] , [f],\t[VOLUMECLAIM: \"b' ,mountpath:'/y'] ]".toList =
        [⟨"a".toList, "/x".toList⟩, ⟨"b".toList, "/y".toList⟩] := by
  have hlayout :=
    IsLayout.list " ".toList "\n".toList " ".toList [] (by decide) (by decide) (by decide) rfl
      (.cons "volumeClaim:'a', mountPath:'/x'".toList " ".toList " ".toList (by decide) (by decide)
        (.cons "f".toList [] "\t".toList rfl (by decide)
          (.single "VOLUMECLAIM: \"b' ,mountpath:'/y'".toList)))
  have hrecords := (records_of_isLayout hlayout (by decide)).1
  exact ⟨hlayout, hrecords.trans (by decide +kernel)⟩

end Volume
end HeadJob
