import Mathlib.Data.List.Forall2
import HeadJob.Config.Placeholder
import HeadJob.Proofs.Text.Match

/-!
What the replacement of placeholders leaves as it was.

Each value is replaced on its own and stays under its key.  A value without a dollar sign is not
touched, and what holds through every single replacement holds of the value in the end.
-/

namespace HeadJob

theorem foldlM_ok_induction {α β ε : Type} {f : β → α → Except ε β} {P : β → Prop} {l : List α}
    {b b' : β} (h : l.foldlM f b = .ok b') (hb : P b)
    (hstep : ∀ a ∈ l, ∀ b b', P b → f b a = .ok b' → P b') : P b' := by
  induction l generalizing b with
  | nil =>
    cases h
    exact hb
  | cons a l ih =>
    rw [List.foldlM_cons] at h
    cases hf : f b a with
    | error e =>
      rw [hf] at h
      cases h
    | ok c =>
      rw [hf] at h
      exact ih h (hstep a List.mem_cons_self b c hb hf)
        fun a' ha' => hstep a' (List.mem_cons_of_mem a ha')

theorem forall₂_of_mapM_ok {α β ε : Type} {f : α → Except ε β} {l : List α} {l' : List β}
    (h : l.mapM f = .ok l') : List.Forall₂ (fun a b => f a = .ok b) l l' := by
  induction l generalizing l' with
  | nil =>
    rw [List.mapM_nil] at h
    cases h
    exact .nil
  | cons a l ih =>
    rw [List.mapM_cons] at h
    cases hf : f a with
    | error e =>
      rw [hf] at h
      cases h
    | ok b =>
      cases hl : l.mapM f with
      | error e =>
        rw [hf, hl] at h
        cases h
      | ok bs =>
        rw [hf, hl] at h
        cases h
        exact .cons hf (ih hl)

namespace Placeholder

variable {block key value t : Text}

theorem pattern_eq_some {n : Nat} (h : pattern block t = some (key, n)) :
    ∃ rest, t = opening block ++ key ++ '}' :: rest ∧ n = t.length - rest.length ∧
      ∀ c ∈ key, isKeyChar c = true := by
  obtain ⟨rest, hread, rfl⟩ := Pattern.ofReader_eq_some_iff.1 h
  split at hread
  · cases hread
  · next u hu =>
    rw [Text.dropPrefix?_eq_some_iff] at hu
    split at hread
    · next c k rest' htake hdrop =>
      cases hread
      have hsplit := List.takeWhile_append_dropWhile (p := isKeyChar) (l := u)
      rw [htake, hdrop] at hsplit
      refine ⟨rest, by rw [hu, ← hsplit, List.append_assoc], rfl, fun d hd => ?_⟩
      rw [← htake] at hd
      exact List.mem_takeWhile_imp hd
    · cases hread

theorem advances_pattern (block : Text) : (pattern block).Advances := by
  intro t key n h
  obtain ⟨rest, rfl, rfl, -⟩ := pattern_eq_some h
  simp only [opening, List.cons_append, List.length_cons, List.length_append]
  omega

theorem isKeyChar_of_mem_references (h : key ∈ references block value) :
    ∀ c ∈ key, isKeyChar c = true := by
  obtain ⟨front, s, n, -, hs⟩ := Pattern.exists_of_mem_hits (advances_pattern block) h
  obtain ⟨-, -, -, hkey⟩ := pattern_eq_some hs
  exact hkey

theorem references_of_notMem (h : '$' ∉ value) : references block value = [] := by
  refine Pattern.hits_eq_nil fun s hs _ => ?_
  cases hp : pattern block s with
  | none => rfl
  | some m =>
    obtain ⟨key, n⟩ := m
    obtain ⟨rest, rfl, -, -⟩ := pattern_eq_some hp
    exact absurd (hs.subset (by simp [opening])) h

end Placeholder

namespace Settings

variable {s s' : Settings} {block key value resolved : Text}

/-- What every replacement keeps holds of a resolved value. -/
theorem resolveValue_induction {P : Text → Prop} (h : s.resolveValue block key value = .ok resolved)
    (hvalue : P value)
    (hstep : ∀ reference ∈ Placeholder.references block value, ∀ target text,
      s.get? reference = some target → P text →
        P (Text.replaceAll (Placeholder.text block reference) (Text.stripQuotes target) text)) :
    P resolved := by
  refine foldlM_ok_induction h hvalue fun reference hreference text text' htext h => ?_
  split at h
  · cases h
  · split at h
    · cases h
    · next target htarget =>
      cases h
      exact hstep reference hreference target text htarget htext

theorem resolveValue_of_notMem (h : '$' ∉ value) : s.resolveValue block key value = .ok value := by
  rw [resolveValue, Placeholder.references_of_notMem h]
  rfl

theorem stripQuotes_sublist (t : Text) : (Text.stripQuotes t).Sublist t := by
  unfold Text.stripQuotes
  split
  · exact List.Sublist.refl _
  · split
    · exact (List.dropLast_sublist _).trans (List.sublist_cons_self _ _)
    · exact List.Sublist.refl _

theorem notMem_resolveValue {c : Char} (h : s.resolveValue block key value = .ok resolved)
    (hs : ∀ e ∈ s.entries, c ∉ e.2) (hvalue : c ∉ value) : c ∉ resolved := by
  refine resolveValue_induction (P := fun t => c ∉ t) h hvalue ?_
  intro reference _ target text htarget htext
  refine Text.notMem_replaceAll (fun hc => ?_) htext
  exact hs _ (OrderedMap.get?_eq_some_iff.1 htarget) ((stripQuotes_sublist target).subset hc)

theorem notMem_placeholder {c : Char} (hblock : c ∉ block) (hkey : c ∉ key)
    (hc : c ∉ ['$', '\x7b', '.', '\x7d']) : c ∉ Placeholder.text block key := by
  simp only [List.mem_cons, List.not_mem_nil, or_false, not_or] at hc
  simp only [Placeholder.text, Placeholder.opening, List.cons_append, List.mem_cons,
    List.mem_append, List.not_mem_nil, or_false, not_or]
  exact ⟨hc.1, hc.2.1, ⟨⟨hblock, hc.2.2.1⟩, hkey⟩, hc.2.2.2⟩

/-- A text in brackets that holds no dollar sign stays where it stands in a value. -/
theorem exists_infix_resolveValue (hblock : ∀ c ∈ block, Placeholder.isKeyChar c = true)
    (h : s.resolveValue block key value = .ok resolved) {m a b : Text} (hm : '$' ∉ '[' :: m)
    (hvalue : value = a ++ '[' :: m ++ b) : ∃ a' b', resolved = a' ++ '[' :: m ++ b' := by
  refine resolveValue_induction (P := fun t => ∃ a b, t = a ++ '[' :: m ++ b) h ⟨a, b, hvalue⟩ ?_
  rintro reference hreference target _ - ⟨a, b, rfl⟩
  have hkey := Placeholder.isKeyChar_of_mem_references hreference
  have hbracket : '[' ∉ Placeholder.text block reference :=
    notMem_placeholder (fun hc => absurd (hblock _ hc) (by decide))
      (fun hc => absurd (hkey _ hc) (by decide)) (by decide)
  refine Text.exists_replaceAll_append (r := '[' :: m) ?_ ?_ a b
  · rintro c ⟨⟩
    exact hm
  · rintro c ⟨⟩
    exact hbracket

/-! ## Whole settings -/

theorem resolve_eq (s : Settings) (block : Text) :
    s.resolve block = (s.entries.mapM fun e =>
      (s.resolveValue block e.1 e.2).map fun resolved => (e.1, resolved)).map OrderedMap.ofList :=
  rfl

theorem forall₂_of_resolve (h : s.resolve block = .ok s') :
    List.Forall₂ (fun e e' => e'.1 = e.1 ∧ s.resolveValue block e.1 e.2 = .ok e'.2)
      s.entries s'.entries := by
  rw [resolve_eq] at h
  cases hm : s.entries.mapM (fun e =>
      (s.resolveValue block e.1 e.2).map fun resolved => (e.1, resolved)) with
  | error e =>
    rw [hm] at h
    cases h
  | ok es =>
    rw [hm] at h
    cases h
    have hall : List.Forall₂ (fun e e' => e'.1 = e.1 ∧ s.resolveValue block e.1 e.2 = .ok e'.2)
        s.entries es := by
      refine (forall₂_of_mapM_ok hm).imp fun e e' he => ?_
      cases hr : s.resolveValue block e.1 e.2 with
      | error e =>
        rw [hr] at he
        cases he
      | ok resolved =>
        rw [hr] at he
        cases he
        exact ⟨rfl, rfl⟩
    have hkeys : es.map Prod.fst = s.entries.map Prod.fst := by
      rw [← List.forall₂_eq_eq_eq, List.forall₂_map_left_iff, List.forall₂_map_right_iff]
      exact (hall.imp fun _ _ he => he.1).flip
    rwa [OrderedMap.entries_ofList (by rw [hkeys]; exact s.nodup)]

theorem exists_of_mem_resolve (h : s.resolve block = .ok s') {e' : Text × Text}
    (he' : e' ∈ s'.entries) :
    ∃ e ∈ s.entries, e'.1 = e.1 ∧ s.resolveValue block e.1 e.2 = .ok e'.2 := by
  have hall := forall₂_of_resolve h
  generalize s.entries = es at hall
  generalize s'.entries = es' at hall he'
  induction hall with
  | nil => cases he'
  | cons hhead _ ih =>
    rcases List.mem_cons.1 he' with rfl | he'
    · exact ⟨_, List.mem_cons_self, hhead⟩
    · obtain ⟨e, he, h⟩ := ih he'
      exact ⟨e, List.mem_cons_of_mem _ he, h⟩

theorem resolve_of_notMem (h : ∀ e ∈ s.entries, '$' ∉ e.2) : s.resolve block = .ok s := by
  have hmap : ∀ es : List (Text × Text), (∀ e ∈ es, '$' ∉ e.2) →
      es.mapM (fun e => (s.resolveValue block e.1 e.2).map fun resolved => (e.1, resolved)) =
        .ok es := by
    intro es hes
    induction es with
    | nil => rfl
    | cons e es ih =>
      rw [List.mapM_cons, ih fun e' he' => hes e' (List.mem_cons_of_mem _ he'),
        resolveValue_of_notMem (hes _ List.mem_cons_self)]
      rfl
  rw [resolve_eq, hmap s.entries h]
  exact congrArg Except.ok (OrderedMap.ofList_entries s)

/-- What a key has after resolving is what its value was resolved to. -/
theorem get?_of_resolve (h : s.resolve block = .ok s') (key : Text) :
    (s.get? key = none ∧ s'.get? key = none) ∨
      ∃ value resolved, s.get? key = some value ∧ s'.get? key = some resolved ∧
        s.resolveValue block key value = .ok resolved := by
  have hall := forall₂_of_resolve h
  rw [OrderedMap.get?, OrderedMap.get?]
  generalize s.entries = es at hall
  generalize s'.entries = es' at hall
  induction hall with
  | nil => exact .inl ⟨rfl, rfl⟩
  | @cons e e' es es' he _ ih =>
    obtain ⟨k, v⟩ := e
    obtain ⟨k', v'⟩ := e'
    obtain ⟨rfl, hv⟩ := he
    rw [OrderedMap.find?, OrderedMap.find?]
    split
    · next hk => exact .inr ⟨v, v', rfl, rfl, hk ▸ hv⟩
    · exact ih

theorem get?_of_resolve_of_notMem (h : s.resolve block = .ok s') (hget : s.get? key = some value)
    (hvalue : '$' ∉ value) : s'.get? key = some value := by
  rcases get?_of_resolve h key with ⟨hnone, -⟩ | ⟨value', resolved, hget', hresolved, hresolve⟩
  · rw [hget] at hnone
    cases hnone
  · rw [hget] at hget'
    cases hget'
    rw [resolveValue_of_notMem hvalue] at hresolve
    cases hresolve
    exact hresolved

end Settings
end HeadJob
