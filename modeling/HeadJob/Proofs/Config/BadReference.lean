import Mathlib.Data.Nat.Find
import HeadJob.Proofs.Config.Substitution

/-!
The reference that resolving fails on.

Where a placeholder stands can be said of the values alone.  The scan of a value finds every placeholder
in it, from left to right, so resolving meets them key by key in the order in which they stand, and it
ends on the first one that names its own key or no key at all.
-/

namespace HeadJob

theorem exists_foldlM_ok {α β ε : Type} {f : β → α → Except ε β} {l : List α}
    (h : ∀ a ∈ l, ∀ b, ∃ b', f b a = .ok b') (b : β) : ∃ b', l.foldlM f b = .ok b' := by
  induction l generalizing b with
  | nil => exact ⟨b, rfl⟩
  | cons a l ih =>
    obtain ⟨c, hc⟩ := h a List.mem_cons_self b
    obtain ⟨b', hb'⟩ := ih (fun a' ha' => h a' (List.mem_cons_of_mem a ha')) c
    refine ⟨b', ?_⟩
    rw [List.foldlM_cons, hc]
    exact hb'

theorem exists_mapM_ok {α β ε : Type} {f : α → Except ε β} {l : List α}
    (h : ∀ a ∈ l, ∃ b, f a = .ok b) : ∃ bs, l.mapM f = .ok bs := by
  induction l with
  | nil => exact ⟨[], rfl⟩
  | cons a l ih =>
    obtain ⟨b, hb⟩ := h a List.mem_cons_self
    obtain ⟨bs, hbs⟩ := ih fun a' ha' => h a' (List.mem_cons_of_mem a ha')
    refine ⟨b :: bs, ?_⟩
    rw [List.mapM_cons, hb, hbs]
    rfl

/-- The first failure of a list ends the whole. -/
theorem mapM_append_cons_error {α β ε : Type} {f : α → Except ε β} {as bs : List α} {a : α} {e : ε}
    (has : ∀ a ∈ as, ∃ b, f a = .ok b) (ha : f a = .error e) :
    (as ++ a :: bs).mapM f = .error e := by
  obtain ⟨cs, hcs⟩ := exists_mapM_ok has
  rw [List.mapM_append, hcs, List.mapM_cons, ha]
  rfl

namespace Placeholder

variable {block value reference : Text}

/-- The scan of a value finds exactly the placeholders that stand in it. -/
theorem mem_references_iff (hblock : ∀ c ∈ block, isKeyChar c = true) :
    reference ∈ references block value ↔
      IsName reference ∧ ∃ u v, value = u ++ text block reference ++ v := by
  constructor
  · intro h
    exact ⟨isName_of_mem_references h, exists_of_mem_references h⟩
  · rintro ⟨hname, u, v, rfl⟩
    rw [references_append_text hblock hname]
    simp

end Placeholder

namespace Settings

open Placeholder (IsName isKeyChar references)

variable {s s' : Settings} {block key reference value : Text} {i n : Nat}

/-! ## Where placeholders stand -/

/-- The `i`th key is `key`, and in its value the placeholder of `reference` stands behind `n`
characters. -/
def RefersAt (s : Settings) (block : Text) (i n : Nat) (key reference : Text) : Prop :=
  IsName reference ∧ ∃ u v, u.length = n ∧
    s.entries[i]? = some (key, u ++ Placeholder.text block reference ++ v)

/-- The reference is to the key itself, or to a key that is not there. -/
def IsBad (s : Settings) (key reference : Text) : Prop := reference = key ∨ reference ∉ s.keys

/-- What a bad reference is reported as. -/
def fault (key reference : Text) : ConfigError :=
  if reference = key then .selfReference key else .undefinedReference key reference

/-- No bad reference stands under an earlier key, or further to the left under the same one. -/
structure IsFirstBad (s : Settings) (block : Text) (i n : Nat) (key reference : Text) : Prop where
  refers : s.RefersAt block i n key reference
  bad : s.IsBad key reference
  least : ∀ i' n' key' reference', s.RefersAt block i' n' key' reference' →
    s.IsBad key' reference' → i < i' ∨ i = i' ∧ n ≤ n'

theorem mem_references_iff_refersAt (hblock : ∀ c ∈ block, isKeyChar c = true)
    (h : s.entries[i]? = some (key, value)) :
    reference ∈ references block value ↔ ∃ n, s.RefersAt block i n key reference := by
  rw [Placeholder.mem_references_iff hblock]
  constructor
  · rintro ⟨hname, u, v, rfl⟩
    exact ⟨u.length, hname, u, v, rfl, h⟩
  · rintro ⟨n, hname, u, v, -, h'⟩
    rw [h] at h'
    cases h'
    exact ⟨hname, u, v, rfl⟩

theorem exists_isFirstBad
    (h : ∃ i n key reference, s.RefersAt block i n key reference ∧ s.IsBad key reference) :
    ∃ i n key reference, s.IsFirstBad block i n key reference := by
  classical
  obtain ⟨n, key, reference, hrefers, hbad⟩ := Nat.find_spec h
  have hn : ∃ n, ∃ key reference, s.RefersAt block (Nat.find h) n key reference ∧
      s.IsBad key reference := ⟨n, key, reference, hrefers, hbad⟩
  obtain ⟨key, reference, hrefers, hbad⟩ := Nat.find_spec hn
  refine ⟨_, _, key, reference, hrefers, hbad, fun i' n' key' reference' hrefers' hbad' => ?_⟩
  rcases Nat.lt_or_eq_of_le (Nat.find_min' h ⟨n', key', reference', hrefers', hbad'⟩) with hlt | heq
  · exact .inl hlt
  · rw [← heq] at hrefers'
    exact .inr ⟨heq, Nat.find_min' hn ⟨key', reference', hrefers', hbad'⟩⟩

/-! ## One value -/

/-- What one reference makes of a text. -/
def replaceReference (s : Settings) (block key text reference : Text) : Except ConfigError Text :=
  if reference = key then .error (.selfReference key)
  else match s.get? reference with
    | none => .error (.undefinedReference key reference)
    | some target =>
      .ok (Text.replaceAll (Placeholder.text block reference) target.stripQuotes text)

theorem resolveValue_eq (s : Settings) (block key value : Text) :
    s.resolveValue block key value =
      (references block value).foldlM (s.replaceReference block key) value := rfl

theorem exists_replaceReference_ok (h : ¬s.IsBad key reference) (text : Text) :
    ∃ text', s.replaceReference block key text reference = .ok text' := by
  rw [IsBad, not_or] at h
  obtain ⟨hne, hmem⟩ := h
  rw [← OrderedMap.get?_eq_none_iff, ← ne_eq, Option.ne_none_iff_exists'] at hmem
  obtain ⟨target, htarget⟩ := hmem
  exact ⟨_, by rw [replaceReference, if_neg hne, htarget]⟩

theorem replaceReference_eq_fault (h : s.IsBad key reference) (text : Text) :
    s.replaceReference block key text reference = .error (fault key reference) := by
  rw [replaceReference, fault]
  split
  · rfl
  · next hne =>
    rw [OrderedMap.get?_eq_none_iff.2 (h.resolve_left hne)]

theorem exists_resolveValue_ok (h : ∀ reference ∈ references block value, ¬s.IsBad key reference) :
    ∃ resolved, s.resolveValue block key value = .ok resolved :=
  exists_foldlM_ok (fun reference hmem => exists_replaceReference_ok (h reference hmem)) value

theorem resolveValue_eq_fault {before after : List Text}
    (hreferences : references block value = before ++ reference :: after)
    (hbefore : ∀ earlier ∈ before, ¬s.IsBad key earlier) (hbad : s.IsBad key reference) :
    s.resolveValue block key value = .error (fault key reference) := by
  have hgood : ∀ earlier ∈ before, ∀ text,
      ∃ text', s.replaceReference block key text earlier = .ok text' := fun earlier hmem =>
    exists_replaceReference_ok (hbefore earlier hmem)
  obtain ⟨text, htext⟩ := exists_foldlM_ok hgood value
  rw [resolveValue_eq, hreferences, List.foldlM_append, htext]
  show (reference :: after).foldlM (s.replaceReference block key) text = _
  rw [List.foldlM_cons, replaceReference_eq_fault hbad]
  rfl

/-! ## All values -/

/-- An entry none of whose references is bad resolves. -/
theorem exists_resolveEntry_ok (hblock : ∀ c ∈ block, isKeyChar c = true)
    (hi : s.entries[i]? = some (key, value))
    (h : ∀ n reference, s.RefersAt block i n key reference → ¬s.IsBad key reference) :
    ∃ e, (s.resolveValue block key value).map (fun resolved => (key, resolved)) = .ok e := by
  have hgood : ∀ reference ∈ references block value, ¬s.IsBad key reference := by
    intro reference hmem
    obtain ⟨n, hrefers⟩ := (mem_references_iff_refersAt hblock hi).1 hmem
    exact h n reference hrefers
  obtain ⟨resolved, hresolved⟩ := exists_resolveValue_ok hgood
  exact ⟨(key, resolved), by rw [hresolved]; rfl⟩

theorem exists_resolve_ok (hblock : ∀ c ∈ block, isKeyChar c = true)
    (h : ∀ i n key reference, s.RefersAt block i n key reference → ¬s.IsBad key reference) :
    ∃ s', s.resolve block = .ok s' := by
  have hall : ∀ e ∈ s.entries, ∃ e', (s.resolveValue block e.1 e.2).map
      (fun resolved => (e.1, resolved)) = .ok e' := by
    rintro ⟨key, value⟩ hmem
    obtain ⟨i, hi⟩ := List.mem_iff_getElem?.1 hmem
    exact exists_resolveEntry_ok hblock hi fun n reference => h i n key reference
  obtain ⟨es, hes⟩ := exists_mapM_ok hall
  exact ⟨_, by rw [resolve_eq, hes]; rfl⟩

/-- The references to the left of the first bad one, in the same value, are good. -/
theorem IsFirstBad.not_isBad_of_mem_references {u v : Text}
    (h : s.IsFirstBad block i u.length key reference)
    (hi : s.entries[i]? = some (key, u ++ Placeholder.text block reference ++ v)) :
    ∀ earlier ∈ references block u, ¬s.IsBad key earlier := by
  intro earlier hmem hbad
  obtain ⟨a, b, rfl⟩ := Placeholder.exists_of_mem_references hmem
  have hrefers : s.RefersAt block i a.length key earlier :=
    ⟨Placeholder.isName_of_mem_references hmem, a, b ++ Placeholder.text block reference ++ v, rfl,
      by rw [hi]; simp⟩
  have hleast := h.least i a.length key earlier hrefers hbad
  simp only [Placeholder.text, List.length_append, List.length_singleton] at hleast
  omega

/-- Everything in front of the first bad reference is resolved in vain. -/
theorem resolve_eq_fault (hblock : ∀ c ∈ block, isKeyChar c = true)
    (h : s.IsFirstBad block i n key reference) : s.resolve block = .error (fault key reference) := by
  obtain ⟨hname, u, v, rfl, hi⟩ := h.refers
  have hearlier : ∀ e ∈ s.entries.take i, ∃ e', (s.resolveValue block e.1 e.2).map
      (fun resolved => (e.1, resolved)) = .ok e' := by
    rintro ⟨key', value⟩ hmem
    obtain ⟨j, hlt, hj⟩ := List.mem_take_iff_getElem.1 hmem
    refine exists_resolveEntry_ok hblock (List.getElem?_eq_some_iff.2 ⟨_, hj⟩) ?_
    intro m reference' hrefers hbad
    have hleast := h.least j m key' reference' hrefers hbad
    omega
  have hvalue : s.resolveValue block key (u ++ Placeholder.text block reference ++ v) =
      .error (fault key reference) :=
    resolveValue_eq_fault (Placeholder.references_append_text hblock hname u v)
      (h.not_isBad_of_mem_references hi) h.bad
  obtain ⟨hlt, hget⟩ := List.getElem?_eq_some_iff.1 hi
  have hentries : s.entries = s.entries.take i ++
      (key, u ++ Placeholder.text block reference ++ v) :: s.entries.drop (i + 1) := by
    rw [← hget, List.getElem_cons_drop, List.take_append_drop]
  rw [resolve_eq, hentries, mapM_append_cons_error hearlier (by rw [hvalue]; rfl)]
  rfl

theorem resolve_eq_error_iff (hblock : ∀ c ∈ block, isKeyChar c = true) {e : ConfigError} :
    s.resolve block = .error e ↔
      ∃ i n key reference, s.IsFirstBad block i n key reference ∧ e = fault key reference := by
  constructor
  · intro h
    by_contra hnone
    have hgood : ∀ i n key reference, s.RefersAt block i n key reference →
        ¬s.IsBad key reference := by
      intro i n key reference hrefers hbad
      obtain ⟨i, n, key, reference, hfirst⟩ := exists_isFirstBad ⟨i, n, key, reference, hrefers, hbad⟩
      have heq := resolve_eq_fault hblock hfirst
      rw [h] at heq
      exact hnone ⟨i, n, key, reference, hfirst, Except.error.inj heq⟩
    obtain ⟨s', hs'⟩ := exists_resolve_ok hblock hgood
    rw [h] at hs'
    cases hs'
  · rintro ⟨i, n, key, reference, hfirst, rfl⟩
    exact resolve_eq_fault hblock hfirst

theorem keys_of_resolve (h : s.resolve block = .ok s') : s'.keys = s.keys := by
  rw [OrderedMap.keys, OrderedMap.keys, ← List.forall₂_eq_eq_eq, List.forall₂_map_left_iff,
    List.forall₂_map_right_iff]
  exact ((forall₂_of_resolve h).imp fun _ _ he => he.1).flip

/-- A value without references stays as it is. -/
theorem getElem?_of_resolve (h : s.resolve block = .ok s') (hi : s.entries[i]? = some (key, value))
    (hreferences : references block value = []) : s'.entries[i]? = some (key, value) := by
  have hstays : s.resolveValue block key value = .ok value := by
    rw [resolveValue_eq, hreferences]
    rfl
  have hall := forall₂_of_resolve h
  obtain ⟨hlt, hget⟩ := List.getElem?_eq_some_iff.1 hi
  have hlt' : i < s'.entries.length := hall.length_eq ▸ hlt
  obtain ⟨hkey, hvalue⟩ := hall.get hlt hlt'
  rw [List.get_eq_getElem, List.get_eq_getElem, hget] at hkey hvalue
  rw [hstays] at hvalue
  rw [List.getElem?_eq_getElem hlt', Option.some_inj]
  exact Prod.ext hkey (Except.ok.inj hvalue).symm

/-- Resolving fails exactly if a placeholder names its own key or no key that is there, and the first
such one is reported.  Otherwise every key keeps its place, and a value without placeholders stays. -/
theorem resolve_first_bad (hblock : ∀ c ∈ block, isKeyChar c = true) (s : Settings) :
    ((∃ e, s.resolve block = .error e) ↔
      ∃ i n key reference, s.RefersAt block i n key reference ∧ s.IsBad key reference) ∧
    (∀ e, s.resolve block = .error e ↔
      ∃ i n key reference, s.IsFirstBad block i n key reference ∧ e = fault key reference) ∧
    ∀ s', s.resolve block = .ok s' → s'.keys = s.keys ∧
      ∀ i key value, s.entries[i]? = some (key, value) →
        (∀ n reference, ¬s.RefersAt block i n key reference) →
          s'.entries[i]? = some (key, value) := by
  refine ⟨⟨?_, ?_⟩, fun e => resolve_eq_error_iff hblock, fun s' h => ⟨keys_of_resolve h, ?_⟩⟩
  · rintro ⟨e, he⟩
    obtain ⟨i, n, key, reference, hfirst, -⟩ := (resolve_eq_error_iff hblock).1 he
    exact ⟨i, n, key, reference, hfirst.refers, hfirst.bad⟩
  · intro h
    obtain ⟨i, n, key, reference, hfirst⟩ := exists_isFirstBad h
    exact ⟨_, resolve_eq_fault hblock hfirst⟩
  · intro i key value hi hnone
    refine getElem?_of_resolve h hi (List.eq_nil_iff_forall_not_mem.2 fun reference hmem => ?_)
    obtain ⟨n, hrefers⟩ := (mem_references_iff_refersAt hblock hi).1 hmem
    exact hnone n reference hrefers

/-- What looks like a placeholder in `a` is none, and of the two bad ones in `c` the left one is met. -/
theorem resolve_first_bad_of_two :
    ∃ s : Settings, (∀ c ∈ "k8s".toList, isKeyChar c = true) ∧
      s.resolve "k8s".toList = .error (.selfReference "c".toList) ∧
      ∃ i n key reference, s.IsFirstBad "k8s".toList i n key reference ∧
        .selfReference "c".toList = fault key reference := by
  let s : Settings := .ofList
    [("a".toList, "$\x7bk8s.b\x7d $\x7bk8s.$\x7bk8s.gone \x7d".toList), ("b".toList, "'x'".toList),
      ("c".toList, "$$\x7bk8s.b\x7d$\x7bk8s.c\x7d$\x7bk8s.gone\x7d".toList),
      ("d".toList, "$\x7bk8s.none\x7d".toList)]
  have hblock : ∀ c ∈ "k8s".toList, isKeyChar c = true := List.all_eq_true.1 (by decide)
  have herror : s.resolve "k8s".toList = .error (.selfReference "c".toList) := rfl
  obtain ⟨-, hfirst, -⟩ := resolve_first_bad hblock s
  exact ⟨s, hblock, herror, (hfirst _).1 herror⟩

end Settings
end HeadJob
