import HeadJob.Prepare
import HeadJob.Proofs.Config.Resolve
import HeadJob.Proofs.Document.Writable

/-!
Launches that are prepared.

A launch is prepared exactly if its configuration can be read and, with the volumes of the command line
in it, its placeholders can be resolved.  Any configuration and any volumes are those of some launch.
-/

namespace HeadJob

variable {args : Arguments} {around : Surroundings} {d d' : Document} {spec : LaunchSpec}

theorem Document.resolve_eq_ok_iff :
    d.resolve = .ok d' ↔
      ∃ s, d.settings.resolve d.name = .ok s ∧ d' = { d with settings := s } := by
  rw [resolve]
  cases d.settings.resolve d.name with
  | error e => simp [Except.map]
  | ok s => simp [Except.map, eq_comm]

theorem Arguments.document_eq_ok_iff :
    args.document around = .ok d' ↔
      ∃ d, Document.ofFile Document.clusterBlock (around.fileAt args.configPath) = .ok d ∧
        (d.applyVolumes (args.volumes.map String.toList)).resolve = .ok d' := by
  unfold Arguments.document
  split
  · next e he => simp [he]
  · next d hd =>
    split
    · next e he => simp [hd, he]
    · next d₁ hd₁ => simp [hd, hd₁]

theorem prepare_eq_ok_iff :
    prepare args around = .ok spec ↔
      ∃ d, args.document around = .ok d ∧ spec = args.spec d around := by
  rw [prepare]
  cases args.document around with
  | error e => simp [Except.map]
  | ok d => simp [Except.map, eq_comm]

/-- The block of the cluster settings has a name that placeholders can hold. -/
theorem Document.isKeyChar_of_mem_clusterBlock :
    ∀ c ∈ clusterBlock, Placeholder.isKeyChar c = true :=
  List.all_eq_true.1 (by decide)

/-! ## Launches with a given configuration -/

theorem exists_ofFile (text : String) (volumes : List String) :
    ∃ (args : Arguments) (around : Surroundings), args.volumes = volumes ∧
      Document.ofFile Document.clusterBlock (around.fileAt args.configPath) =
        Document.ofText Document.clusterBlock text.toList :=
  ⟨⟨"run", [], volumes, "image", "1", "8Gi", "nextflow.config"⟩,
    ⟨fun _ => .ok text.toUTF8, "/", [], none⟩, rfl, Document.ofFile_toUTF8 _ text⟩

/-- Without dollar signs a job is prepared with the settings as the volumes leave them. -/
theorem exists_prepare_of_notMem {text : String} (volumes : List String)
    (hread : Document.ofText Document.clusterBlock text.toList = .ok d)
    (hdollar : ∀ e ∈ (d.settings.applyVolumes (volumes.map String.toList)).entries, '$' ∉ e.2) :
    ∃ args around spec, args.volumes = volumes ∧
      Document.ofFile Document.clusterBlock (around.fileAt args.configPath) = .ok d ∧
      prepare args around = .ok spec ∧
      spec.volumes = (d.settings.applyVolumes (volumes.map String.toList)).volumes := by
  obtain ⟨args, around, rfl, hfile⟩ := exists_ofFile text volumes
  rw [hread] at hfile
  have hresolve : (d.applyVolumes (args.volumes.map String.toList)).resolve =
      .ok (d.applyVolumes (args.volumes.map String.toList)) :=
    Document.resolve_eq_ok_iff.2 ⟨_, Settings.resolve_of_notMem hdollar, rfl⟩
  have hdocument := Arguments.document_eq_ok_iff.2 ⟨d, hfile, hresolve⟩
  exact ⟨args, around, _, rfl, hfile, prepare_eq_ok_iff.2 ⟨_, hdocument, rfl⟩, rfl⟩

end HeadJob
