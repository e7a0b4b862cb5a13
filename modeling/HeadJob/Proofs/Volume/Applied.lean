import HeadJob.Proofs.Document.Decode
import HeadJob.Proofs.Volume.Merge
import HeadJob.Proofs.Volume.Requested

/-!
The lines of a block after volumes were put in.

Volumes are written under keys without any mark, and with every quote and bracket closed.  So their
entries read back, and the lines of the block lead as deep as before.
-/

namespace HeadJob

open Delimiter (brackets braces)

/-! ## Characters in place of others -/

namespace Delimiter

variable {d : Delimiter} {t u w : Text}

/-- Wherever `t` closes no outer delimiter `u` closes none either, and leads as deep. -/
def MayBecome (d : Delimiter) (t u : Text) : Prop :=
  ∀ n m, d.depthAfter (n + 1) t = some m → d.depthAfter (n + 1) u = some m

theorem mayBecome_refl (d : Delimiter) (t : Text) : d.MayBecome t t := fun _ _ h => h

theorem MayBecome.trans (h : d.MayBecome t u) (h' : d.MayBecome u w) : d.MayBecome t w :=
  fun n m hm => h' n m (h n m hm)

theorem mayBecome_of_among (h : d.among t = d.among u) : d.MayBecome t u := by
  intro n m hm
  rwa [← depthAfter_among, ← h, depthAfter_among]

/-- What closes as much as it opens may be left out. -/
theorem mayBecome_nil (h : d.balance t = 0) : d.MayBecome t [] := by
  intro n m hm
  have hdepth := (depthAfter_eq_some_iff.1 hm).2
  rw [h] at hdepth
  rw [depthAfter, Option.some_inj]
  omega

theorem MayBecome.append {t' u' : Text} (h : d.MayBecome t u) (h' : d.MayBecome t' u') :
    d.MayBecome (t ++ t') (u ++ u') := by
  intro n m hm
  rw [depthAfter_append, Option.bind_eq_some_iff] at hm ⊢
  obtain ⟨k, hk, hm⟩ := hm
  obtain ⟨hstays, hdepth⟩ := depthAfter_eq_some_iff.1 hk
  have hpos : 0 ≤ (n : Int) + d.balance t := hstays t (by simp)
  obtain ⟨j, rfl⟩ : ∃ j, k = j + 1 := ⟨k - 1, by omega⟩
  exact ⟨j + 1, h n _ hk, h' j m hm⟩

end Delimiter

namespace Settings

variable {s s' : Settings} {key value : Text} {v : Volume}

/-! ## Entries in place of others -/

def ReadsBack (s : Settings) : Prop :=
  ∀ e ∈ s.entries, e.1.IsKey ∧ e.2.IsValue ∧ Text.ReadsBack e.1 e.2

def lines (s : Settings) : List Text := s.entries.map fun e => Text.assignmentLine e.1 e.2

theorem among_line (hk : key.IsPlainKey) (h : Text.ReadsBack key value) :
    braces.among (Scan.start.outside (Text.assignmentLine key value).stripComment) =
      braces.among (Scan.start.outside value) := by
  have hkey : braces.among (Scan.start.outside key) = [] :=
    Delimiter.among_of_notMem (hk.notMem_outside (by decide)) (hk.notMem_outside (by decide))
  rw [h.bare, hk.isUnmarked.outside_assignmentLine, Delimiter.among_append,
    Delimiter.among_append, hkey]
  rfl

theorem mayBecome_set {es : List (Text × Text)} (hes : ∀ e ∈ es, Text.ReadsBack e.1 e.2)
    (hk : key.IsPlainKey) (h : Text.ReadsBack key value)
    (hmarks : braces.MayBecome (Scan.start.outside ((OrderedMap.find? key es).getD []))
      (Scan.start.outside value)) :
    braces.MayBecome (Text.marks (es.map fun e => Text.assignmentLine e.1 e.2))
      (Text.marks ((OrderedMap.set key value es).map fun e => Text.assignmentLine e.1 e.2)) := by
  have hnew := Delimiter.mayBecome_of_among (among_line hk h).symm
  induction es with
  | nil =>
    rw [OrderedMap.set, List.map_singleton, Text.marks, Text.marks, List.flatMap_singleton]
    exact hmarks.trans hnew
  | cons e es ih =>
    obtain ⟨k, old⟩ := e
    rw [OrderedMap.find?] at hmarks
    rw [OrderedMap.set]
    split at hmarks
    · next hkey =>
      subst hkey
      have hold := Delimiter.mayBecome_of_among (among_line hk (hes _ List.mem_cons_self))
      rw [if_pos rfl]
      exact ((hold.trans hmarks).trans hnew).append (Delimiter.mayBecome_refl _ _)
    · next hkey =>
      rw [if_neg hkey]
      exact (Delimiter.mayBecome_refl _ _).append
        (ih (fun e' he' => hes e' (List.mem_cons_of_mem _ he')) hmarks)

/-- The entries of `s'` can be written in place of those of `s`. -/
structure Keeps (s s' : Settings) : Prop where
  readsBack : s'.ReadsBack
  marks : braces.MayBecome (Text.marks s.lines) (Text.marks s'.lines)

theorem keeps_refl (hs : s.ReadsBack) : s.Keeps s := ⟨hs, Delimiter.mayBecome_refl _ _⟩

theorem Keeps.trans {s'' : Settings} (h : s.Keeps s') (h' : s'.Keeps s'') : s.Keeps s'' :=
  ⟨h'.readsBack, h.marks.trans h'.marks⟩

theorem keeps_insert (hs : s.ReadsBack) (hk : key.IsPlainKey) (hv : value.IsValue)
    (h : Text.ReadsBack key value)
    (hmarks : braces.MayBecome (Scan.start.outside ((s.get? key).getD []))
      (Scan.start.outside value)) :
    s.Keeps (s.insert key value) := by
  refine ⟨fun e he => ?_, mayBecome_set (fun e he => (hs e he).2.2) hk h hmarks⟩
  rcases OrderedMap.mem_insert he with rfl | he
  · exact ⟨hk.isKey, hv, h⟩
  · exact hs e he

/-! ## The work storage -/

theorem isPlainKey_of_all {t : Text} (hne : t ≠ []) (htrim : t.trim = t)
    (h : t.all (fun c => c ∉ ['\n', '=', '\'', '"', '{', '}', '/', '\\']) = true) :
    t.IsPlainKey := by
  have hplain : ∀ c ∈ t, c ∉ ['\n', '=', '\'', '"', '{', '}', '/', '\\'] :=
    fun c hc => of_decide_eq_true (List.all_eq_true.1 h c hc)
  exact ⟨hne, htrim, fun hc => hplain _ hc (by decide),
    fun c hc hmem => hplain c hc (List.mem_cons_of_mem _ hmem)⟩

theorem isPlainKey_storageClaimKey : storageClaimKey.IsPlainKey :=
  isPlainKey_of_all (by decide) (by decide) (by decide)

theorem isPlainKey_storagePathKey : storagePathKey.IsPlainKey :=
  isPlainKey_of_all (by decide) (by decide) (by decide)

theorem isPlainKey_podKey : podKey.IsPlainKey :=
  isPlainKey_of_all (by decide) (by decide) (by decide)

/-- What stood under a key that read back closes as many braces as it opens. -/
theorem ReadsBack.balance_get? (hs : s.ReadsBack) (key : Text) :
    braces.balance (Scan.start.outside ((s.get? key).getD [])) = 0 := by
  cases hget : s.get? key with
  | none => rfl
  | some old => exact (hs _ (OrderedMap.get?_eq_some_iff.1 hget)).2.2.braces

/-- A name in quotes can be written under any plain key. -/
theorem keeps_insert_quoted (hs : s.ReadsBack) (hk : key.IsPlainKey) {t : Text}
    (ht : ∀ c ∈ t, Volume.isNameChar c = true) : s.Keeps (s.insert key ('\'' :: t ++ ['\''])) := by
  obtain ⟨-, houtside, hbare⟩ := Volume.scan_quoted (w := []) (fun c hc => by cases hc) ht
  have houtside' : Scan.start.outside ('\'' :: t ++ ['\'']) = [] := houtside
  have hbreak : '\n' ∉ '\'' :: t ++ ['\''] := by
    simp only [List.cons_append, List.mem_cons, List.mem_append, List.not_mem_nil, or_false, not_or]
    exact ⟨by decide, fun hc => absurd (ht _ hc) (by decide), by decide⟩
  have hvalue : Text.IsValue ('\'' :: t ++ ['\'']) :=
    ⟨by simp, Text.trim_append_append (s := ['\'']) (by decide) (by simp) (by decide) (by simp) t,
      hbreak⟩
  refine keeps_insert hs hk hvalue (Text.readsBack_of_isPlainKey hk hbare ?_ ?_) ?_
  · rw [Delimiter.netChange_eq_balance, houtside']
    rfl
  · rw [Delimiter.netChange_eq_balance, houtside']
    rfl
  · rw [houtside']
    exact Delimiter.mayBecome_nil (hs.balance_get? key)

theorem keeps_setStorage (hs : s.ReadsBack) (hv : v.IsPlain) : s.Keeps (s.setStorage v) := by
  have hclaim := keeps_insert_quoted hs isPlainKey_storageClaimKey hv.1
  exact hclaim.trans (keeps_insert_quoted hclaim.readsBack isPlainKey_storagePathKey hv.2)

theorem pod?_setStorage (s : Settings) (v : Volume) : (s.setStorage v).pod? = s.pod? := by
  have hclaim : podKey ≠ storageClaimKey := by decide
  have hpath : podKey ≠ storagePathKey := by decide
  rw [pod?, setStorage, OrderedMap.get?_insert, if_neg hpath, OrderedMap.get?_insert, if_neg hclaim,
    pod?]

/-! ## The list under `pod` -/

def ClosesQuotes (s : Settings) : Prop := (Scan.start.run (s.pod?.getD [])).quote = none

theorem ReadsBack.isClosed_pod (hs : s.ReadsBack) (hquote : s.ClosesQuotes) :
    PodList.IsClosed (s.pod?.getD []) := by
  unfold ClosesQuotes at hquote
  unfold pod? at hquote ⊢
  cases hget : s.get? podKey with
  | none => exact ⟨by simp, rfl, rfl, rfl⟩
  | some pods =>
    obtain ⟨-, hv, hreads⟩ := hs _ (OrderedMap.get?_eq_some_iff.1 hget)
    rw [hget, Option.getD_some] at hquote
    have hline : Text.assignmentLine podKey pods = podKey ++ [' '] ++ '=' :: [' '] ++ pods := by
      simp [Text.assignmentLine]
    have hbare := hreads.bare
    rw [hline, Text.stripComment_append_equals (by decide) (by decide),
      isPlainKey_podKey.isUnmarked.run]
      at hbare
    exact ⟨hv.noBreak, hbare.2, hquote, hreads.brackets⟩

theorem keeps_addPodVolume (hs : s.ReadsBack) (hquote : s.ClosesQuotes) (hv : v.IsPlain) :
    s.Keeps (s.addPodVolume v) ∧ (s.addPodVolume v).ClosesQuotes := by
  cases hholds : (PodList.parse (s.pod?.getD [])).holds v with
  | true =>
    rw [addPodVolume_of_holds hholds]
    exact ⟨keeps_refl hs, hquote⟩
  | false =>
    obtain ⟨hclosed, hamong⟩ := PodList.isClosed_merge (hs.isClosed_pod hquote) hv hholds
    have hne : ((PodList.parse (s.pod?.getD [])).merge v).toLiteral ≠ [] := by
      rw [PodList.toLiteral_merge hholds]
      exact List.append_ne_nil_of_right_ne_nil _ (List.cons_ne_nil _ _)
    have hvalue : Text.IsValue ((PodList.parse (s.pod?.getD [])).merge v).toLiteral :=
      ⟨hne, PodList.trim_toLiteral_merge hholds, hclosed.noBreak⟩
    have hput : s.addPodVolume v =
        s.insert podKey ((PodList.parse (s.pod?.getD [])).merge v).toLiteral := by
      rw [addPodVolume, if_neg (by simp [hholds])]
    have hpod := pod?_addPodVolume hholds
    rw [hput] at hpod ⊢
    -- how the volume is merged in does not matter from here on
    generalize ((PodList.parse (s.pod?.getD [])).merge v).toLiteral = literal at *
    have hbraces : braces.netChange literal = 0 := by
      rw [Delimiter.netChange_eq_balance, ← Delimiter.balance_among, hamong,
        Delimiter.balance_among]
      exact hs.balance_get? podKey
    refine ⟨keeps_insert hs isPlainKey_podKey hvalue
      (Text.readsBack_of_isPlainKey isPlainKey_podKey hclosed.bare hclosed.brackets hbraces)
      (Delimiter.mayBecome_of_among hamong.symm), ?_⟩
    rw [ClosesQuotes, hpod, Option.getD_some]
    exact hclosed.quote

theorem keeps_foldl_addPodVolume (hs : s.ReadsBack) (hquote : s.ClosesQuotes) {vs : List Volume}
    (hvs : ∀ v ∈ vs, v.IsPlain) : s.Keeps (vs.foldl addPodVolume s) := by
  induction vs generalizing s with
  | nil => exact keeps_refl hs
  | cons v vs ih =>
    obtain ⟨hkeeps, hquote'⟩ := keeps_addPodVolume hs hquote (hvs v List.mem_cons_self)
    rw [List.foldl_cons]
    exact hkeeps.trans (ih hkeeps.readsBack hquote' fun w hw => hvs w (List.mem_cons_of_mem v hw))

theorem foldl_addPodVolume_of_holds {vs : List Volume}
    (h : ∀ v ∈ vs, (PodList.parse (s.pod?.getD [])).holds v = true) :
    vs.foldl addPodVolume s = s := by
  induction vs with
  | nil => rfl
  | cons v vs ih =>
    rw [List.foldl_cons, addPodVolume_of_holds (h v List.mem_cons_self)]
    exact ih fun w hw => h w (List.mem_cons_of_mem v hw)

/-! ## All volumes -/

/-- The list under `pod` holds all the volumes that would join it, or closes its quotes. -/
def TakesVolumes (s : Settings) (vs : List Volume) : Prop :=
  (∀ v ∈ vs.tail, (PodList.parse (s.pod?.getD [])).holds v = true) ∨ s.ClosesQuotes

instance (s : Settings) (vs : List Volume) : Decidable (s.TakesVolumes vs) :=
  inferInstanceAs (Decidable (_ ∨ _ = none))

/-- Volumes can be put into a block that reads back, and it still reads back. -/
theorem keeps_addVolumes (hs : s.ReadsBack) {vs : List Volume} (hvs : ∀ v ∈ vs, v.IsPlain)
    (h : s.TakesVolumes vs) : s.Keeps (s.addVolumes vs) := by
  cases vs with
  | nil => exact keeps_refl hs
  | cons v vs =>
    have hstorage := keeps_setStorage hs (hvs v List.mem_cons_self)
    have hpod := pod?_setStorage s v
    rw [addVolumes]
    rcases h with hholds | hquote
    · rw [foldl_addPodVolume_of_holds (by rw [hpod]; exact hholds)]
      exact hstorage
    · refine hstorage.trans (keeps_foldl_addPodVolume hstorage.readsBack ?_
        fun w hw => hvs w (List.mem_cons_of_mem v hw))
      rw [ClosesQuotes, hpod]
      exact hquote

end Settings
end HeadJob
