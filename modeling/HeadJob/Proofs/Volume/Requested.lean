import HeadJob.Proofs.Launch.Prepared
import HeadJob.Proofs.Volume.Entry

/-!
What becomes of the volumes on the command line.

The first volume becomes the work storage.  A later one joins the list under `pod`, unless an entry
of the list already names its parts.  Such an entry need not be a record, and then the volume is
passed over and not mounted.  A volume that is there once is still there when the job is prepared.
-/

namespace HeadJob

section

variable {α : Type} [DecidableEq α]

theorem eraseDups_concat (as : List α) (a : α) :
    (as ++ [a]).eraseDups = if a ∈ as then as.eraseDups else as.eraseDups ++ [a] := by
  rw [List.eraseDups_append, List.removeAll]
  split
  · next h => simp [h]
  · next h => simp [h, List.eraseDups_cons]

/-- What is appended one by one, unless it is there, is what was not there, each once, where it comes
first. -/
theorem foldl_unless_contains (as bs : List α) :
    as.foldl (fun bs a => if bs.contains a then bs else bs ++ [a]) bs =
      bs ++ as.eraseDups.filter (· ∉ bs) := by
  -- the induction is on the last element, since those before it say what is there by then
  induction as using List.reverseRecOn with
  | nil => simp
  | append_singleton as a ih =>
    rw [List.foldl_concat, ih, eraseDups_concat]
    by_cases hbs : a ∈ bs
    · have hthere : (bs ++ as.eraseDups.filter (· ∉ bs)).contains a = true := by simp [hbs]
      rw [if_pos hthere]
      split
      · rfl
      · rw [List.filter_append, List.filter_cons_of_neg (by simpa using hbs), List.filter_nil,
          List.append_nil]
    · by_cases has : a ∈ as
      · have hthere : (bs ++ as.eraseDups.filter (· ∉ bs)).contains a = true := by simp [has, hbs]
        rw [if_pos hthere, if_pos has]
      · have hnew : ¬(bs ++ as.eraseDups.filter (· ∉ bs)).contains a = true := by simp [has, hbs]
        rw [if_neg hnew, if_neg has, List.filter_append, List.filter_cons_of_pos (by simpa using hbs),
          List.filter_nil, List.append_assoc]

end

namespace Settings

variable {s s' : Settings} {v w : Volume}

/-! ## The volumes of settings -/

theorem volumes_eq (s : Settings) :
    s.volumes = s.storage?.toList ++
      (Volume.records (s.pod?.getD [])).eraseDups.filter (· ∉ s.storage?.toList) :=
  foldl_unless_contains _ _

theorem mem_volumes_iff :
    v ∈ s.volumes ↔ s.storage? = some v ∨ v ∈ Volume.records (s.pod?.getD []) := by
  simp only [volumes_eq, List.mem_append, List.mem_filter, List.mem_eraseDups, Option.mem_toList,
    decide_eq_true_eq]
  by_cases hv : s.storage? = some v
  · exact iff_of_true (.inl hv) (.inl hv)
  · exact or_congr_right (and_iff_left hv)

/-- What a value holds besides quote marks it holds without its quotes too. -/
theorem mem_stripQuotes {c : Char} {t : Text} (hc : Quote.ofMark? c = none) (h : c ∈ t) :
    c ∈ Text.stripQuotes t := by
  unfold Text.stripQuotes
  split
  · exact h
  · next d r =>
    split
    · next hd =>
      rw [Bool.and_eq_true, beq_iff_eq] at hd
      have hne : c ≠ d := by
        rintro rfl
        rw [hc] at hd
        exact absurd hd.1 (by decide)
      have hr : c ∈ r := (List.mem_cons.1 h).resolve_left hne
      rw [← List.dropLast_append_getLast? d hd.2, List.mem_append, List.mem_singleton] at hr
      exact hr.resolve_right hne
    · exact h

theorem stripQuotes_quoted (t : Text) : Text.stripQuotes ('\'' :: t ++ ['\'']) = t := by
  simp [Text.stripQuotes, Quote.ofMark?]

theorem nonEmpty?_of_get? {key t : Text} (h : s.get? key = some ('\'' :: t ++ ['\'']))
    (ht : t ≠ []) : s.nonEmpty? key = some t := by
  rw [nonEmpty?, unquoted?, h, Option.map_some, stripQuotes_quoted]
  simp [Option.filter, ht]

theorem storage?_of_get? (hclaim : s.get? storageClaimKey = some ('\'' :: v.claim ++ ['\'']))
    (hpath : s.get? storagePathKey = some ('\'' :: v.path ++ ['\''])) (hgiven : v.IsGiven) :
    s.storage? = some v := by
  rw [storage?, storageClaim?, storagePath?, nonEmpty?_of_get? hclaim hgiven.claim_ne_nil,
    nonEmpty?_of_get? hpath hgiven.path_ne_nil]
  rfl

theorem claim_setStorage (s : Settings) (v : Volume) :
    (s.setStorage v).get? storageClaimKey = some ('\'' :: v.claim ++ ['\'']) := by
  rw [setStorage, OrderedMap.get?_insert, if_neg (by decide), OrderedMap.get?_insert, if_pos rfl]

theorem path_setStorage (s : Settings) (v : Volume) :
    (s.setStorage v).get? storagePathKey = some ('\'' :: v.path ++ ['\'']) := by
  rw [setStorage, OrderedMap.get?_insert, if_pos rfl]

theorem storage?_setStorage (hgiven : v.IsGiven) : (s.setStorage v).storage? = some v :=
  storage?_of_get? (claim_setStorage s v) (path_setStorage s v) hgiven

/-! ## Putting volumes in -/

theorem get?_addPodVolume {key : Text} (hkey : key ≠ podKey) :
    (s.addPodVolume v).get? key = s.get? key := by
  unfold addPodVolume
  dsimp only
  split
  · rfl
  · rw [OrderedMap.get?_insert, if_neg hkey]

theorem storage?_addPodVolume : (s.addPodVolume v).storage? = s.storage? := by
  have hclaim : storageClaimKey ≠ podKey := by decide
  have hpath : storagePathKey ≠ podKey := by decide
  simp only [storage?, storageClaim?, storagePath?, nonEmpty?, unquoted?, get?_addPodVolume hclaim,
    get?_addPodVolume hpath]

theorem pod?_addPodVolume (h : (PodList.parse (s.pod?.getD [])).holds v = false) :
    (s.addPodVolume v).pod? = some ((PodList.parse (s.pod?.getD [])).merge v).toLiteral := by
  rw [addPodVolume, if_neg (by simp [h]), pod?, OrderedMap.get?_insert, if_pos rfl]

theorem addPodVolume_of_holds (h : (PodList.parse (s.pod?.getD [])).holds v = true) :
    s.addPodVolume v = s := by
  rw [addPodVolume, if_pos h]

theorem mem_volumes_addPodVolume (hw : w.IsPlain) (h : w ∈ s.volumes) :
    w ∈ (s.addPodVolume v).volumes := by
  cases hv : (PodList.parse (s.pod?.getD [])).holds v with
  | true => rwa [addPodVolume_of_holds hv]
  | false =>
    rw [mem_volumes_iff] at h ⊢
    rw [storage?_addPodVolume, pod?_addPodVolume hv, Option.getD_some]
    exact h.imp_right (PodList.mem_records_merge_of_mem hw hv)

theorem mem_volumes_foldl (hw : w.IsPlain) (h : w ∈ s.volumes) (vs : List Volume) :
    w ∈ (vs.foldl addPodVolume s).volumes := by
  induction vs generalizing s with
  | nil => exact h
  | cons v vs ih =>
    rw [List.foldl_cons]
    exact ih (mem_volumes_addPodVolume hw h)

theorem addVolumes_append {vs : List Volume} (hvs : vs ≠ []) (ws : List Volume) :
    s.addVolumes (vs ++ ws) = ws.foldl addPodVolume (s.addVolumes vs) := by
  cases vs with
  | nil => exact absurd rfl hvs
  | cons v vs => rw [List.cons_append, addVolumes, addVolumes, List.foldl_append]

/-- A volume that is in the settings once stays there, whatever volumes follow it. -/
theorem mem_volumes_addVolumes {vs : List Volume} (hvs : vs ≠ []) (hw : w.IsPlain)
    (h : w ∈ (s.addVolumes vs).volumes) (ws : List Volume) :
    w ∈ (s.addVolumes (vs ++ ws)).volumes := by
  rw [addVolumes_append hvs]
  exact mem_volumes_foldl hw h ws

theorem mem_volumes_first (hgiven : v.IsGiven) : v ∈ (s.addVolumes [v]).volumes :=
  mem_volumes_iff.2 (.inl (storage?_setStorage hgiven))

theorem mem_volumes_next {vs : List Volume} (hvs : vs ≠ []) (hv : v.IsPlain) (hgiven : v.IsGiven)
    (h : (PodList.parse ((s.addVolumes vs).pod?.getD [])).holds v = false) :
    v ∈ (s.addVolumes (vs ++ [v])).volumes := by
  rw [addVolumes_append hvs, List.foldl_cons, List.foldl_nil, mem_volumes_iff, pod?_addPodVolume h,
    Option.getD_some]
  exact .inr (PodList.mem_records_merge hv hgiven.claim_ne_nil hgiven.path_ne_nil h)

theorem addVolumes_of_holds {vs : List Volume} (hvs : vs ≠ [])
    (h : (PodList.parse ((s.addVolumes vs).pod?.getD [])).holds v = true) :
    s.addVolumes (vs ++ [v]) = s.addVolumes vs := by
  rw [addVolumes_append hvs, List.foldl_cons, List.foldl_nil, addPodVolume_of_holds h]

/-- A volume that is put in after `earlier` ones is passed over if an entry of the list under `pod`
names its parts while it is none of the volumes to mount. -/
def PassesOver (s : Settings) (earlier : List Text) (v : Volume) : Prop :=
  earlier.filterMap Volume.ofArgument? ≠ [] ∧
    (PodList.parse ((s.applyVolumes earlier).pod?.getD [])).holds v = true ∧
    v ∉ (s.applyVolumes earlier).volumes

/-- A volume is to be mounted when it has been put in, unless it is passed over. -/
theorem mem_volumes_applyVolumes_iff {earlier : List Text} {a : Text}
    (ha : Volume.ofArgument? a = some v) (hv : v.IsPlain) :
    v ∈ (s.applyVolumes (earlier ++ [a])).volumes ↔ ¬s.PassesOver earlier v := by
  have hgiven := Volume.isGiven_of_ofArgument? ha
  have happly : s.applyVolumes (earlier ++ [a]) =
      s.addVolumes (earlier.filterMap Volume.ofArgument? ++ [v]) := by
    rw [applyVolumes, List.filterMap_append, List.filterMap_cons_some ha, List.filterMap_nil]
  rw [happly]
  by_cases hfirst : earlier.filterMap Volume.ofArgument? = []
  · rw [hfirst]
    exact iff_of_true (mem_volumes_first hgiven) fun h => h.1 hfirst
  · cases hholds : (PodList.parse ((s.applyVolumes earlier).pod?.getD [])).holds v with
    | true =>
      rw [addVolumes_of_holds hfirst hholds]
      refine ⟨fun hmem h => h.2.2 hmem, fun h => ?_⟩
      by_contra hmem
      exact h ⟨hfirst, hholds, hmem⟩
    | false =>
      refine iff_of_true (mem_volumes_next hfirst hv hgiven hholds) fun h => ?_
      have hpass := h.2.1
      rw [hholds] at hpass
      cases hpass

/-! ## Resolving placeholders -/

variable {block : Text}

/-- A value that is plain without its quotes is not touched by placeholders. -/
theorem nonEmpty?_of_resolve (h : s.resolve block = .ok s') {key t : Text}
    (hs : s.nonEmpty? key = some t) (ht : ∀ c ∈ t, Volume.isNameChar c = true) :
    s'.nonEmpty? key = some t := by
  have hvalue : ∀ value, s.get? key = some value → '$' ∉ value := by
    intro value hget hmem
    rw [nonEmpty?, unquoted?, hget, Option.map_some, Option.filter_eq_some_iff] at hs
    have hdollar := mem_stripQuotes (by decide) hmem
    rw [Option.some.inj hs.1] at hdollar
    exact absurd (ht _ hdollar) (by decide)
  cases hget : s.get? key with
  | none =>
    rw [nonEmpty?, unquoted?, hget] at hs
    cases hs
  | some value =>
    rw [nonEmpty?, unquoted?, get?_of_resolve_of_notMem h hget (hvalue value hget)]
    rwa [nonEmpty?, unquoted?, hget] at hs

theorem storage?_of_resolve (h : s.resolve block = .ok s') (hv : v.IsPlain)
    (hs : s.storage? = some v) : s'.storage? = some v := by
  simp only [storage?, Option.bind_eq_bind, Option.bind_eq_some_iff, Option.pure_def,
    Option.some.injEq] at hs ⊢
  obtain ⟨claim, hclaim, path, hpath, rfl⟩ := hs
  exact ⟨claim, nonEmpty?_of_resolve h hclaim hv.1, path, nonEmpty?_of_resolve h hpath hv.2, rfl⟩

/-- A volume that is in the settings is still there when the placeholders are resolved. -/
theorem mem_volumes_of_resolve (hblock : ∀ c ∈ block, Placeholder.isKeyChar c = true)
    (h : s.resolve block = .ok s') (hv : v.IsPlain) (hs : v ∈ s.volumes) : v ∈ s'.volumes := by
  rw [mem_volumes_iff] at hs ⊢
  refine hs.imp (storage?_of_resolve h hv) fun hmem => ?_
  rcases get?_of_resolve h podKey with ⟨hnone, -⟩ | ⟨value, resolved, hget, hget', hresolve⟩
  · rw [pod?, hnone] at hmem
    cases hmem
  · rw [pod?, hget, Option.getD_some] at hmem
    rw [pod?, hget', Option.getD_some]
    obtain ⟨a, r, b, hvalue, hr⟩ := Volume.exists_of_mem_records hmem
    obtain ⟨m, rfl⟩ := (PodList.isFirm_of_isRecord hv hr).brackets
    obtain ⟨a', b', rfl⟩ := exists_infix_resolveValue hblock hresolve (hr.notMem_dollar hv) hvalue
    exact Volume.mem_records_append hr hv a' b'

end Settings

/-- A requested volume is mounted, unless it is passed over when its turn comes.  Exactly then it is not
among the volumes that the arguments up to it leave. -/
theorem mem_volumes_of_prepare {args : Arguments} {around : Surroundings} {d : Document}
    {spec : LaunchSpec} {earlier later : List Text} {a : Text} {v : Volume}
    (hd : Document.ofFile Document.clusterBlock (around.fileAt args.configPath) = .ok d)
    (hspec : prepare args around = .ok spec)
    (hargs : args.volumes.map String.toList = earlier ++ a :: later)
    (ha : Volume.ofArgument? a = some v) (hv : v.IsPlain) :
    (¬d.settings.PassesOver earlier v → v ∈ spec.volumes) ∧
      (v ∉ (d.settings.applyVolumes (earlier ++ [a])).volumes ↔
        d.settings.PassesOver earlier v) := by
  have hput : v ∈ (d.settings.applyVolumes (earlier ++ [a])).volumes ↔
      ¬d.settings.PassesOver earlier v := Settings.mem_volumes_applyVolumes_iff ha hv
  refine ⟨fun hpass => ?_, by rw [hput, not_not]⟩
  obtain ⟨d', hd', rfl⟩ := prepare_eq_ok_iff.1 hspec
  obtain ⟨d₀, hd₀, hresolve⟩ := Arguments.document_eq_ok_iff.1 hd'
  rw [hd] at hd₀
  cases hd₀
  obtain ⟨s, hs, rfl⟩ := Document.resolve_eq_ok_iff.1 hresolve
  have hblock : ∀ c ∈ d.name, Placeholder.isKeyChar c = true := by
    rw [Document.name_of_ofFile hd]
    exact Document.isKeyChar_of_mem_clusterBlock
  have happlied : v ∈ (d.settings.applyVolumes (args.volumes.map String.toList)).volumes := by
    have hne : (earlier ++ [a]).filterMap Volume.ofArgument? ≠ [] := by
      rw [List.filterMap_append, List.filterMap_cons_some ha]
      simp
    rw [hargs, show earlier ++ a :: later = (earlier ++ [a]) ++ later by simp, Settings.applyVolumes,
      List.filterMap_append]
    exact Settings.mem_volumes_addVolumes hne hv (hput.2 hpass) _
  exact Settings.mem_volumes_of_resolve hblock hs hv happlied

theorem mem_volumes_of_prepare_of_other_path :
    ∃ args around d spec earlier later a v,
      Document.ofFile Document.clusterBlock (around.fileAt args.configPath) = .ok d ∧
      prepare args around = .ok spec ∧
      args.volumes.map String.toList = earlier ++ a :: later ∧
      Volume.ofArgument? a = some v ∧ v.IsPlain ∧ ¬d.settings.PassesOver earlier v ∧
      v ∈ spec.volumes := by
  let pods := "[[volumeClaim:'c', mountPath:'/p', readOnly:true]]".toList
  obtain ⟨s, hs⟩ : ∃ s : Settings, s = .ofList [("pod".toList, pods)] := ⟨_, rfl⟩
  obtain ⟨text, htext⟩ : ∃ text : String, Document.ofText Document.clusterBlock text.toList =
      .ok ⟨"k8s".toList, s, [], [], [], []⟩ := by
    rw [hs]
    exact ⟨"k8s \x7b\n  pod = [[volumeClaim:'c', mountPath:'/p', readOnly:true]]\n\x7d\n", rfl⟩
  have hdollar : ∀ e ∈ (s.applyVolumes (["w:/w", "c:/q"].map String.toList)).entries,
      '$' ∉ e.2 := by
    rw [hs]
    decide +kernel
  have hholds : (PodList.parse ((s.applyVolumes ["w:/w".toList]).pod?.getD [])).holds
      ⟨"c".toList, "/q".toList⟩ = false := by
    rw [hs]
    decide +kernel
  have hpass : ¬s.PassesOver ["w:/w".toList] ⟨"c".toList, "/q".toList⟩ := fun h => by
    have hpass := h.2.1
    rw [hholds] at hpass
    cases hpass
  have hplain : (⟨"c".toList, "/q".toList⟩ : Volume).IsPlain := by decide
  obtain ⟨args, around, spec, hvolumes, hd, hspec, -⟩ := exists_prepare_of_notMem _ htext hdollar
  have hargs : args.volumes.map String.toList = ["w:/w".toList] ++ "c:/q".toList :: [] := by
    rw [hvolumes]
    rfl
  exact ⟨args, around, _, spec, ["w:/w".toList], [], "c:/q".toList, ⟨"c".toList, "/q".toList⟩, hd, hspec,
    hargs, rfl, hplain, hpass, (mem_volumes_of_prepare hd hspec hargs rfl hplain).1 hpass⟩

/-- An entry with one field more than a record names a claim and a path, but is no volume to mount. -/
theorem not_mem_volumes_of_other_field :
    ∃ args around spec v, prepare args around = .ok spec ∧
      (∃ a ∈ args.volumes, Volume.ofArgument? a.toList = some v) ∧ v.IsPlain ∧
      v ∉ spec.volumes := by
  let pods := "[[volumeClaim:'c', mountPath:'/p', readOnly:true]]".toList
  obtain ⟨s, hs⟩ : ∃ s : Settings, s = .ofList [("pod".toList, pods)] := ⟨_, rfl⟩
  obtain ⟨text, htext⟩ : ∃ text : String, Document.ofText Document.clusterBlock text.toList =
      .ok ⟨"k8s".toList, s, [], [], [], []⟩ := by
    rw [hs]
    exact ⟨"k8s \x7b\n  pod = [[volumeClaim:'c', mountPath:'/p', readOnly:true]]\n\x7d\n", rfl⟩
  have hdollar : ∀ e ∈ (s.applyVolumes (["w:/w", "c:/p"].map String.toList)).entries,
      '$' ∉ e.2 := by
    rw [hs]
    decide +kernel
  have hlost : ⟨"c".toList, "/p".toList⟩ ∉
      (s.applyVolumes (["w:/w", "c:/p"].map String.toList)).volumes := by
    rw [hs]
    decide +kernel
  obtain ⟨args, around, spec, hvolumes, -, hspec, hspecVolumes⟩ :=
    exists_prepare_of_notMem _ htext hdollar
  refine ⟨args, around, spec, ⟨"c".toList, "/p".toList⟩, hspec, ⟨"c:/p", ?_, rfl⟩, by decide, ?_⟩
  · rw [hvolumes]
    exact List.mem_cons_of_mem _ List.mem_cons_self
  · rw [hspecVolumes]
    exact hlost

end HeadJob
