import HeadJob.Proofs.Json.Scalar
import HeadJob.Proofs.Manifest.Head

/-!
How deep the objects of a head job are.

Whatever the specification, the parts of an object lie inside each other in fewer levels than are read,
and its only number is the user that the container runs as.
-/

namespace HeadJob
namespace Manifest

open Json

theorem fits_strings (n : Nat) (entries : List (String × String)) :
    (strings entries).Fits (n + 1) := by
  intro m hm
  obtain ⟨e, -, rfl⟩ := List.mem_map.1 hm
  exact fits_string n e.2

theorem fits_metadata (n : Nat) (m : Metadata) : m.toJson.Fits (n + 2) := by
  apply fits_ofMembers
  simp [fits_strings]

theorem fits_secret (n : Nat) (s : Secret) : s.toJson.Fits (n + 3) := by
  apply fits_object
  simp [fits_strings, fits_metadata]

theorem fits_volumeMount (n : Nat) (m : VolumeMount) : m.toJson.Fits (n + 1) := by
  obtain ⟨name, mountPath, readOnly⟩ := m
  apply fits_ofMembers
  cases readOnly <;> simp

theorem fits_podVolume (n : Nat) (v : PodVolume) : v.toJson.Fits (n + 2) := by
  apply fits_object
  cases v.source with
  | claim name readOnly =>
    have hclaim : Fits (n + 1)
        (.object [("claimName", .string name), ("readOnly", .bool readOnly)]) :=
      fits_object (by simp)
    simp [hclaim]
  | secret name =>
    have hsecret : Fits (n + 1) (.object [("secretName", .string name)]) := fits_object (by simp)
    simp [hsecret]

theorem fits_requirements (n : Nat) (r : ResourceRequirements) : r.toJson.Fits (n + 2) := by
  apply fits_object
  simp [fits_strings]

theorem fits_securityContext {c : SecurityContext} (h : c.runAsUser < Amount.significandLimit)
    (n : Nat) : c.toJson.Fits (n + 3) := by
  have hdrop : Fits (n + 2) (.object [("drop", .ofStrings c.droppedCapabilities)]) :=
    fits_object (by simp [fits_ofStrings])
  apply fits_object
  simp [hdrop, fits_ofNat h]

theorem fits_variables (n : Nat) (vars : List (String × String)) :
    Fits (n + 2) (.array (vars.map fun (name, value) =>
      .object [("name", .string name), ("value", .string value)])) := by
  intro v hv
  obtain ⟨e, -, rfl⟩ := List.mem_map.1 hv
  exact fits_object (by simp)

theorem fits_container {c : Container}
    (h : ∀ s ∈ c.security, s.runAsUser < Amount.significandLimit) (n : Nat) :
    c.toJson.Fits (n + 4) := by
  have hmounts (mounts : List VolumeMount) : Fits (n + 3) (.array (mounts.map (·.toJson))) := by
    intro v hv
    obtain ⟨m, -, rfl⟩ := List.mem_map.1 hv
    exact fits_volumeMount (n + 1) m
  have hsecurity : ∀ s ∈ c.security, s.toJson.Fits (n + 3) := fun s hs =>
    fits_securityContext (h s hs) n
  apply fits_ofMembers
  simpa [fits_ofStrings, fits_variables, fits_requirements, hmounts] using hsecurity

theorem fits_podSecurityContext (n : Nat) (c : PodSecurityContext) : c.toJson.Fits (n + 2) := by
  have hprofile : Fits (n + 1) (.object [("type", .string c.seccompProfile)]) :=
    fits_object (by simp)
  apply fits_object
  simp [hprofile]

theorem fits_podSpec {p : PodSpec} {n : Nat} (h : ∀ c ∈ p.containers, c.toJson.Fits (n + 4)) :
    p.toJson.Fits (n + 6) := by
  have hcontainers : Fits (n + 5) (.array (p.containers.map (·.toJson))) := by
    intro v hv
    obtain ⟨c, hc, rfl⟩ := List.mem_map.1 hv
    exact h c hc
  have hvolumes (volumes : List PodVolume) : Fits (n + 5) (.array (volumes.map (·.toJson))) := by
    intro v hv
    obtain ⟨w, -, rfl⟩ := List.mem_map.1 hv
    exact fits_podVolume (n + 2) w
  apply fits_ofMembers
  simp [hcontainers, hvolumes, fits_podSecurityContext]

theorem fits_job {j : Job} {n : Nat} (h : j.pod.toJson.Fits (n + 2)) : j.toJson.Fits (n + 5) := by
  have htemplate : Fits (n + 3)
      (.object [("metadata", j.podMetadata.toJson), ("spec", j.pod.toJson)]) :=
    fits_object (by simp [fits_metadata, h])
  have hspec : Fits (n + 4) (.object [("template",
      .object [("metadata", j.podMetadata.toJson), ("spec", j.pod.toJson)])]) :=
    fits_object (by simp [htemplate])
  apply fits_object
  simp [fits_metadata, hspec]

/-- A head job has one container, which runs as a user with a small number. -/
theorem fits_headJob {spec : LaunchSpec} {secretName : String} {job : Job}
    (h : headJob spec secretName = .ok job) (ns : String) (n : Nat) :
    (job.inNamespace ns).toJson.Fits (n + 9) := by
  obtain ⟨resources, -, rfl⟩ := exists_of_headJob h
  refine fits_job (fits_podSpec fun c hc => fits_container (fun s hs => ?_) n)
  have hcontainer := List.mem_singleton.1 hc
  subst hcontainer
  cases hs
  decide

end Manifest
end HeadJob
