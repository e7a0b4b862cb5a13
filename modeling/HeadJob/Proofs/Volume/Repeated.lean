import HeadJob.Proofs.Volume.Appended
import HeadJob.Proofs.Volume.Reread

/-!
Volumes that are put in twice.

Whatever stands under `pod`, a list that holds a volume still holds it when another one was added and the
literal is read again, and a volume that was added is held too.  So volumes that were put in before leave
the settings as they are.
-/

namespace HeadJob

namespace OrderedMap

variable {κ α : Type} [DecidableEq κ]

theorem insert_of_get? {m : OrderedMap κ α} {k : κ} {a : α} (h : m.get? k = some a) :
    m.insert k a = m := by
  have hset : ∀ es : List (κ × α), find? k es = some a → set k a es = es := by
    intro es hes
    induction es with
    | nil => cases hes
    | cons e es ih =>
      obtain ⟨k', a'⟩ := e
      rw [find?] at hes
      rw [set]
      split at hes
      · next hk =>
        cases hes
        rw [if_pos hk, hk]
      · next hk => rw [if_neg hk, ih hes]
  exact ext (hset m.entries h)

end OrderedMap

namespace PodList

open Text (isBlank isAllBlank)
open Volume (records)

variable {e e' r t literal : Text} {es es' : List Text} {v w : Volume}

theorem IsBracketFree.of_isInfix (ht : IsBracketFree t) (h : r <:+: t) : IsBracketFree r :=
  ⟨fun hmem => ht.1 (h.subset hmem), fun hmem => ht.2 (h.subset hmem)⟩

theorem IsBracketFree.isWord (h : IsBracketFree r) (hne : r ≠ [])
    (hhead : ∀ c ∈ r.head?, isBlank c = false) (hlast : ∀ c ∈ r.getLast?, isBlank c = false) :
    IsWord r := by
  refine ⟨hne, hhead, hlast, fun c hc => ?_⟩
  have hnot : c ∉ r := by
    rcases hc with rfl | rfl
    · exact h.1
    · exact h.2
  rw [List.count_eq_zero_of_not_mem hnot]
  exact Nat.zero_le 1

theorem IsBracketFree.infix_of_bracketed (h : IsBracketFree r) (hne : r ≠ [])
    (hin : r <:+: bracketed e) : r <:+: e := by
  rcases List.infix_cons_iff.1 hin with hfront | hin
  · cases r with
    | nil => exact absurd rfl hne
    | cons c r =>
      obtain ⟨rfl, -⟩ := List.cons_prefix_cons.1 hfront
      exact absurd List.mem_cons_self h.1
  · rcases List.infix_concat_iff.1 hin with hback | hin
    · rcases List.suffix_concat_iff.1 hback with rfl | ⟨x, rfl, -⟩
      · exact absurd rfl hne
      · exact absurd (by simp) h.2
    · exact hin

theorem isWord_field {name : Text} (hname : name ≠ []) (hhead : name.head?.any isBlank = false)
    {s : Text} (h : IsBracketFree (name ++ s ++ ['\''])) : IsWord (name ++ s ++ ['\'']) := by
  refine h.isWord (by simp) ?_ ?_
  · rw [List.append_assoc, List.head?_append_of_ne_nil _ hname]
    exact (Option.any_eq_false _ _).1 hhead
  · intro c hc
    rw [List.getLast?_concat] at hc
    cases hc
    decide

theorem isWord_of_isRecord (hv : v.IsUnbracketed) (hr : v.IsRecord r) : IsWord r := by
  obtain ⟨m, rfl, hm⟩ := hr.exists_inside
  have hopening : '[' ∉ m :=
    hm _ (by decide) (by decide) (by decide) (by decide) (by decide) hv.1.1 hv.2.1
  have hclosing : ']' ∉ m :=
    hm _ (by decide) (by decide) (by decide) (by decide) (by decide) hv.1.2 hv.2.2
  refine ⟨by simp, head?_bracketed (e := m), getLast?_bracketed (e := m), fun c hc => ?_⟩
  rcases hc with rfl | rfl
  · simp [List.count_append, List.count_eq_zero_of_not_mem hopening]
  · simp [List.count_append, List.count_eq_zero_of_not_mem hclosing]

/-- An entry holds what it held when its literal is read again. -/
theorem Rereads.entryHolds (h : Rereads e e') (hv : v.IsUnbracketed) (hgiven : v.IsGiven)
    (he : PodList.entryHolds e v = true) : PodList.entryHolds e' v = true := by
  have hentry := isBracketFree_entry hv
  have hclaimFree := hentry.of_isInfix v.claimField_infix_entry
  have hpathFree := hentry.of_isInfix v.pathField_infix_entry
  have hclaimWord : IsWord v.claimField := isWord_field (by decide) (by decide) hclaimFree
  have hpathWord : IsWord v.pathField := isWord_field (by decide) (by decide) hpathFree
  have hinside : ∀ {t : Text}, t <:+: e → t <:+: bracketed e := fun ht =>
    ht.trans ⟨['['], [']'], by simp [bracketed]⟩
  rw [entryHolds_iff] at he ⊢
  rcases he with ⟨hclaim, hpath⟩ | hmem
  · exact .inl
      ⟨hclaimFree.infix_of_bracketed hclaimWord.ne_nil (h.isInfix _ hclaimWord (hinside hclaim)),
        hpathFree.infix_of_bracketed hpathWord.ne_nil (h.isInfix _ hpathWord (hinside hpath))⟩
  · obtain ⟨a, r, b, hrecord, hr⟩ := Volume.exists_of_mem_records hmem
    obtain ⟨a', b', hrecord'⟩ := h.isInfix r (isWord_of_isRecord hv hr) ⟨a, b, hrecord.symm⟩
    refine .inr ?_
    rw [show '[' :: (e' ++ [']']) = a' ++ r ++ b' from hrecord'.symm]
    exact hr.mem_records ⟨hgiven.colon_claim, hv.1.2⟩ a' b'

theorem colon_mem_of_entryHolds (he : entryHolds e v = true) : ':' ∈ e := by
  rcases entryHolds_iff.1 he with ⟨hclaim, -⟩ | hmem
  · have hfield : ∀ name : Text, ':' ∈ name → ':' ∈ name ++ v.claim ++ ['\''] := fun _ h =>
      List.mem_append_left _ (List.mem_append_left _ h)
    exact hclaim.subset (hfield _ (by decide))
  · obtain ⟨a, r, b, hrecord, hr⟩ := Volume.exists_of_mem_records hmem
    have hcolon : ':' ∈ '[' :: (e ++ [']']) := by
      rw [hrecord]
      exact List.mem_append_left _ (List.mem_append_right _ hr.colon_mem)
    simpa using hcolon

theorem holds_parse_toLiteral (hes : ∀ e ∈ es, ¬HasSeparator e) (hv : v.IsUnbracketed)
    (hgiven : v.IsGiven) (h : holds ⟨es⟩ v = true) : (parse (toLiteral ⟨es⟩)).holds v = true := by
  obtain ⟨e, he, hheld⟩ := List.any_eq_true.1 ((holds_eq_any _ _).symm.trans h)
  obtain ⟨es', hrereads, hparse⟩ := exists_parse_toLiteral hes (List.ne_nil_of_mem he)
  obtain ⟨e', he', hee⟩ := exists_of_mem_left hrereads he
  have hheld' := hee.entryHolds hv hgiven hheld
  have hblank : isAllBlank (Text.join separatorText es') = false := by
    by_contra hblank
    obtain ⟨f, rfl, hf⟩ := (isAllBlank_join_iff (List.ne_nil_of_mem he')).1 (by simpa using hblank)
    rw [List.mem_singleton.1 he'] at hheld'
    exact Volume.notMem_of_isAllBlank hf (by decide) (colon_mem_of_entryHolds hheld')
  rw [hparse, hblank, if_neg (by decide), holds_eq_any, List.any_eq_true]
  exact ⟨e', he', hheld'⟩

end PodList

namespace Settings

variable {s : Settings} {v w : Volume} {vs : List Volume}

/-- What the list holds it still holds when a volume is put in, and that volume too. -/
theorem holds_addPodVolume (hv : v.IsUnbracketed) (hgiven : v.IsGiven) (hw : w.IsUnbracketed)
    (h : s.pods.holds v = true ∨ v = w) : (s.addPodVolume w).pods.holds v = true := by
  rw [addPodVolume_eq]
  split
  · next hheld =>
    rcases h with h | rfl
    · exact h
    · exact hheld
  · rw [pods_insert]
    refine PodList.holds_parse_toLiteral (fun e he => ?_) hv hgiven ?_
    · rcases List.mem_append.1 he with he | he
      · exact PodList.not_hasSeparator_of_mem_parse he
      · rw [List.mem_singleton.1 he]
        exact PodList.not_hasSeparator_of_notMem (PodList.isBracketFree_entry hw).2
    · rw [PodList.holds_eq_any, List.any_append, Bool.or_eq_true]
      rcases h with h | rfl
      · exact .inl h
      · exact .inr (by simp [PodList.entryHolds_entry])

theorem holds_foldl_addPodVolume (hvs : ∀ w ∈ vs, w.IsUnbracketed ∧ w.IsGiven)
    (hv : v.IsUnbracketed) (hgiven : v.IsGiven) (h : s.pods.holds v = true ∨ v ∈ vs) :
    (vs.foldl addPodVolume s).pods.holds v = true := by
  induction vs generalizing s with
  | nil => exact h.resolve_right List.not_mem_nil
  | cons w vs ih =>
    rw [List.foldl_cons]
    refine ih (fun u hu => hvs u (List.mem_cons_of_mem w hu)) ?_
    rw [List.mem_cons, ← or_assoc] at h
    exact h.imp_left (holds_addPodVolume hv hgiven (hvs w List.mem_cons_self).1)

/-- Volumes that were put in are not put in again. -/
theorem addVolumes_addVolumes (hvs : ∀ w ∈ vs, w.IsUnbracketed ∧ w.IsGiven) :
    (s.addVolumes vs).addVolumes vs = s.addVolumes vs := by
  cases vs with
  | nil => rfl
  | cons v vs =>
    obtain ⟨s', hs'⟩ : ∃ s', s' = vs.foldl addPodVolume (s.setStorage v) := ⟨_, rfl⟩
    have hclaim : s'.get? storageClaimKey = some ('\'' :: v.claim ++ ['\'']) := by
      rw [hs', ← addVolumes, claim_addVolumes]
    have hpath : s'.get? storagePathKey = some ('\'' :: v.path ++ ['\'']) := by
      rw [hs', ← addVolumes, path_addVolumes]
    have hstorage : s'.setStorage v = s' := by
      rw [setStorage, OrderedMap.insert_of_get? hclaim, OrderedMap.insert_of_get? hpath]
    rw [addVolumes, addVolumes, ← hs', hstorage]
    refine foldl_addPodVolume_of_holds fun w hw => ?_
    have hrest : ∀ u ∈ vs, u.IsUnbracketed ∧ u.IsGiven := fun u hu => hvs u (List.mem_cons_of_mem v hu)
    rw [hs']
    exact holds_foldl_addPodVolume hrest (hrest w hw).1 (hrest w hw).2 (.inr hw)

end Settings

/-- Arguments that are applied a second time leave the settings as they are and warn as they did the
first time. -/
theorem Document.applyVolumes_applyVolumes (d : Document) {arguments : List Text}
    (hfree : ∀ v ∈ arguments.filterMap Volume.ofArgument?, v.IsUnbracketed) :
    ((d.applyVolumes arguments).applyVolumes arguments).settings =
        (d.applyVolumes arguments).settings ∧
      ∃ ws, (d.applyVolumes arguments).warnings = d.warnings ++ ws ∧
        ((d.applyVolumes arguments).applyVolumes arguments).warnings =
          (d.applyVolumes arguments).warnings ++ ws := by
  refine ⟨Settings.addVolumes_addVolumes fun v hv => ⟨hfree v hv, ?_⟩, _, rfl, rfl⟩
  obtain ⟨a, -, ha⟩ := List.mem_filterMap.1 hv
  exact Volume.isGiven_of_ofArgument? ha

/-- The literal is read in another way after it was written: blanks between brackets are dropped. -/
theorem Document.applyVolumes_applyVolumes_of_open_brackets :
    ∃ (d : Document) (arguments : List Text),
      (∀ v ∈ arguments.filterMap Volume.ofArgument?, v.IsUnbracketed) ∧
      d.settings.pods.entries = ["[ [a".toList] ∧
      (d.applyVolumes arguments).settings.pods.entries =
        ["[[a".toList, "volumeClaim:'c', mountPath:'/p'".toList] ∧
      ((d.applyVolumes arguments).applyVolumes arguments).settings =
        (d.applyVolumes arguments).settings := by
  let d : Document := ⟨"k8s".toList, .ofList [("pod".toList, "[[ [a]".toList)], [], [], [], []⟩
  let arguments := ["w:/w".toList, "c:/p".toList, "none".toList]
  have hfree : ∀ v ∈ arguments.filterMap Volume.ofArgument?, v.IsUnbracketed := by decide
  exact ⟨d, arguments, hfree, by decide +kernel, by decide +kernel,
    (d.applyVolumes_applyVolumes hfree).1⟩

end HeadJob
