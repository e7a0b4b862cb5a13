import HeadJob.Proofs.Volume.Appended

/-!
The volumes that a prepared job mounts.

They are the work storage and the records of the list under `pod`, each once, as the settings have them
when the volumes of the command line are in and the placeholders are resolved.  The first volume of the
command line is the work storage by then, since it is written in quotes and holds no placeholder.
-/

namespace HeadJob

section

variable {α : Type} [DecidableEq α]

theorem nodup_eraseDups (as : List α) : as.eraseDups.Nodup := by
  induction as using List.reverseRecOn with
  | nil => exact List.nodup_nil
  | append_singleton as a ih =>
    rw [eraseDups_concat]
    split
    · exact ih
    · next ha =>
      refine List.nodup_append.2 ⟨ih, by simp, fun b hb c hc => ?_⟩
      rw [List.mem_singleton.1 hc]
      exact ne_of_mem_of_not_mem (List.mem_eraseDups.1 hb) ha

theorem tail_eq_filter {as : List α} (h : as.Nodup) :
    as.tail = as.filter fun a => as.head? ≠ some a := by
  cases as with
  | nil => rfl
  | cons a as =>
    have hrest : ∀ b ∈ as, decide ((a :: as).head? ≠ some b) = true := by
      rintro b hb
      rw [decide_eq_true_eq, List.head?_cons]
      rintro ⟨⟩
      exact (List.nodup_cons.1 h).1 hb
    rw [List.filter_cons_of_neg (by simp), List.filter_eq_self.2 hrest, List.tail_cons]

end

namespace Settings

variable {s s' : Settings} {v : Volume} {block : Text}

theorem nodup_volumes (s : Settings) : s.volumes.Nodup := by
  rw [volumes_eq, List.nodup_append]
  refine ⟨?_, (nodup_eraseDups _).filter _, ?_⟩
  · cases s.storage? with
    | none => exact List.nodup_nil
    | some v => simp
  · rintro v hv _ hw rfl
    exact of_decide_eq_true (List.mem_filter.1 hw).2 hv

theorem head?_volumes (s : Settings) :
    s.volumes.head? = s.storage?.or (Volume.records (s.pod?.getD [])).head? := by
  rw [volumes_eq]
  cases s.storage? with
  | none =>
    cases Volume.records (s.pod?.getD []) with
    | nil => rfl
    | cons v vs => simp [List.eraseDups_cons]
  | some v => rfl

theorem tail_volumes (s : Settings) :
    s.volumes.tail =
      (Volume.records (s.pod?.getD [])).eraseDups.filter fun v => s.volumes.head? ≠ some v := by
  cases hstorage : s.storage? with
  | none =>
    have hvolumes : s.volumes = (Volume.records (s.pod?.getD [])).eraseDups := by
      rw [volumes_eq, hstorage]
      simp
    rw [← hvolumes]
    exact tail_eq_filter (nodup_volumes s)
  | some v =>
    rw [head?_volumes, volumes_eq, hstorage]
    refine List.filter_congr fun w _ => ?_
    simp [eq_comm]

/-- A work storage that holds no placeholder stays when placeholders are resolved. -/
theorem storage?_of_resolve_of_notMem (h : s.resolve block = .ok s')
    (hclaim : s.get? storageClaimKey = some ('\'' :: v.claim ++ ['\'']))
    (hpath : s.get? storagePathKey = some ('\'' :: v.path ++ ['\''])) (hgiven : v.IsGiven)
    (hdollar : '$' ∉ v.claim ∧ '$' ∉ v.path) : s'.storage? = some v := by
  have hquoted : ∀ t : Text, '$' ∉ t → '$' ∉ '\'' :: t ++ ['\''] := by simp
  exact storage?_of_get? (get?_of_resolve_of_notMem h hclaim (hquoted _ hdollar.1))
    (get?_of_resolve_of_notMem h hpath (hquoted _ hdollar.2)) hgiven

/-- The first volume among the arguments is the work storage, whatever the settings had for it. -/
theorem storage?_of_resolve_applyVolumes {earlier later : List Text} {a : Text}
    (h : (s.applyVolumes (earlier ++ a :: later)).resolve block = .ok s')
    (hearlier : ∀ b ∈ earlier, Volume.ofArgument? b = none) (ha : Volume.ofArgument? a = some v)
    (hdollar : '$' ∉ a) : s'.storage? = some v := by
  have hnone : earlier.filterMap Volume.ofArgument? = [] := List.filterMap_eq_nil_iff.2 hearlier
  rw [applyVolumes, List.filterMap_append, hnone, List.nil_append, List.filterMap_cons_some ha] at h
  rw [← Volume.argument_of_ofArgument? ha, Volume.argument, List.mem_append, List.mem_cons, not_or,
    not_or] at hdollar
  exact storage?_of_resolve_of_notMem h (claim_addVolumes s v _) (path_addVolumes s v _)
    (Volume.isGiven_of_ofArgument? ha) ⟨hdollar.1, hdollar.2.2⟩

end Settings

/-- A prepared job mounts no volume twice.  The first volume among the arguments comes first, if it holds
no dollar sign; the volumes behind the first are the other records of the list under `pod`, as it is when
the volumes are in and the placeholders are resolved. -/
theorem volumes_of_prepare {args : Arguments} {around : Surroundings} {spec : LaunchSpec}
    (hspec : prepare args around = .ok spec) :
    spec.volumes.Nodup ∧
      (∀ earlier a later v, args.volumes.map String.toList = earlier ++ a :: later →
        (∀ b ∈ earlier, Volume.ofArgument? b = none) → Volume.ofArgument? a = some v → '$' ∉ a →
        spec.volumes.head? = some v) ∧
      ∃ d, args.document around = .ok d ∧
        spec.volumes.head? =
          d.settings.storage?.or (Volume.records (d.settings.pod?.getD [])).head? ∧
        spec.volumes.tail = (Volume.records (d.settings.pod?.getD [])).eraseDups.filter fun v =>
          spec.volumes.head? ≠ some v := by
  obtain ⟨d, hd, rfl⟩ := prepare_eq_ok_iff.1 hspec
  have hvolumes : (args.spec d around).volumes = d.settings.volumes := rfl
  rw [hvolumes]
  refine ⟨d.settings.nodup_volumes, fun earlier a later v hargs hearlier ha hdollar => ?_, d, hd,
    d.settings.head?_volumes, d.settings.tail_volumes⟩
  obtain ⟨d₀, -, hresolve⟩ := Arguments.document_eq_ok_iff.1 hd
  obtain ⟨s, hs, rfl⟩ := Document.resolve_eq_ok_iff.1 hresolve
  rw [hargs] at hs
  rw [Settings.head?_volumes, Settings.storage?_of_resolve_applyVolumes hs hearlier ha hdollar]
  rfl

/-- The file sets another work storage, and its list holds the one of the arguments. -/
theorem volumes_of_prepare_of_listed_storage :
    ∃ args around spec, prepare args around = .ok spec ∧
      args.volumes.map String.toList = ["w".toList, "w:/w".toList, "d:/d".toList] ∧
      spec.volumes.Nodup ∧ spec.volumes.head? = some ⟨"w".toList, "/w".toList⟩ ∧
      spec.volumes = [⟨"w".toList, "/w".toList⟩, ⟨"d".toList, "/d".toList⟩] := by
  obtain ⟨s, hs⟩ : ∃ s : Settings, s = .ofList
      [("storageClaimName".toList, "o".toList), ("storageMountPath".toList, "/o".toList),
        ("pod".toList, "[[volumeClaim:'w', mountPath:'/w']]".toList)] := ⟨_, rfl⟩
  obtain ⟨text, htext⟩ : ∃ text : String, Document.ofText Document.clusterBlock text.toList =
      .ok ⟨"k8s".toList, s, [], [], [], []⟩ := by
    rw [hs]
    exact ⟨
      "k8s \x7b\nstorageClaimName=o\nstorageMountPath=/o\npod=[[volumeClaim:'w', mountPath:'/w']]\n\x7d",
      rfl⟩
  have hdollar : ∀ e ∈ (s.applyVolumes (["w", "w:/w", "d:/d"].map String.toList)).entries,
      '$' ∉ e.2 := by
    rw [hs]
    decide +kernel
  have hvolumes : (s.applyVolumes (["w", "w:/w", "d:/d"].map String.toList)).volumes =
      [⟨"w".toList, "/w".toList⟩, ⟨"d".toList, "/d".toList⟩] := by
    rw [hs]
    decide +kernel
  obtain ⟨args, around, spec, hargs, -, hspec, hspecVolumes⟩ := exists_prepare_of_notMem _ htext hdollar
  have hargs : args.volumes.map String.toList =
      ["w".toList] ++ "w:/w".toList :: ["d:/d".toList] := by
    rw [hargs]
    rfl
  obtain ⟨hnodup, hfirst, -⟩ := volumes_of_prepare hspec
  exact ⟨args, around, spec, hspec, hargs, hnodup,
    hfirst _ _ _ ⟨"w".toList, "/w".toList⟩ hargs (by decide) rfl (by decide),
    hspecVolumes.trans hvolumes⟩

end HeadJob
