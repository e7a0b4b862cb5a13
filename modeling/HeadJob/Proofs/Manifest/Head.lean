import HeadJob.Manifest.Head
import HeadJob.Proofs.Json.Place

/-!
What the objects of a head job say: their namespace, and the secret that the job mounts.

A job is made for any name that its secret may have, and the name stands in one place of it.
-/

namespace HeadJob
namespace Manifest

open Json (Step at? replaceAt?)

/-- Where an object says in which namespace it is. -/
def namespacePlace : List Step := [.member "metadata", .member "namespace"]

/-- Where a job of so many claims describes the volume with its configuration. -/
def configVolumePlace (claims : Nat) : List Step :=
  [.member "spec", .member "template", .member "spec", .member "volumes", .item claims]

/-- Where a job of so many claims names its secret. -/
def secretNamePlace (claims : Nat) : List Step :=
  configVolumePlace claims ++ [.member "secret", .member "secretName"]

variable {spec : LaunchSpec} {job job' : Job} {e : CpuError} {ns secretName : String}

theorem at?_namespacePlace {v : Json} {m : Metadata} (hv : v.get? "metadata" = some m.toJson)
    (hm : m.inNamespace = some ns) : at? namespacePlace v = some (.string ns) := by
  obtain ⟨generateName, labels, name, inNamespace⟩ := m
  cases hm
  rw [namespacePlace, at?, hv, Option.bind_some]
  -- each member in front of the namespace is there or not
  cases generateName <;> cases name <;> cases labels <;>
    simp [Metadata.toJson, Json.ofMembers, Json.get?, at?]

theorem at?_namespacePlace_secret (s : Secret) (ns : String) :
    at? namespacePlace (s.inNamespace ns).toJson = some (.string ns) :=
  at?_namespacePlace rfl rfl

theorem at?_namespacePlace_job (j : Job) (ns : String) :
    at? namespacePlace (j.inNamespace ns).toJson = some (.string ns) :=
  at?_namespacePlace rfl rfl

/-! ## The job and its secret -/

theorem headJob_eq_error_iff : headJob spec secretName = .error e ↔
    spec.resources.cpuRequest = .error e := by
  rw [headJob, requirements]
  cases spec.resources.cpuRequest <;> simp [Except.map]

theorem exists_headJob {amount : String} (h : spec.resources.cpuRequest = .ok amount)
    (secretName : String) : ∃ job, headJob spec secretName = .ok job := by
  rw [headJob, requirements, h]
  exact ⟨_, rfl⟩

/-- A job is made from the amounts that were accepted. -/
theorem exists_of_headJob (h : headJob spec secretName = .ok job) :
    ∃ resources, requirements spec.resources = .ok resources ∧
      job =
        { metadata :=
            { name := some spec.name, labels := [("app", "nextflow"), ("runName", spec.name)] }
          podMetadata := { labels := [("job-name", spec.name)] }
          pod := (headPod (headContainer spec resources)).attach spec.volumes secretName } := by
  rw [headJob] at h
  cases hr : requirements spec.resources with
  | error e =>
    rw [hr] at h
    cases h
  | ok resources =>
    rw [hr] at h
    cases h
    exact ⟨resources, rfl, rfl⟩

/-- Behind the claims stands the volume with the configuration, and it is the secret's. -/
theorem at?_configVolumePlace (h : headJob spec secretName = .ok job) (ns : String) :
    at? (configVolumePlace spec.volumes.length) (job.inNamespace ns).toJson =
      some (.object [("name", .string configVolumeName),
        ("secret", .object [("secretName", .string secretName)])]) := by
  obtain ⟨resources, -, rfl⟩ := exists_of_headJob h
  simp [configVolumePlace, Job.toJson, Job.inNamespace, PodSpec.toJson, Json.ofMembers, at?,
    Json.get?, PodSpec.attach, headPod, podVolumes, PodVolume.toJson]

/-- The jobs for two names of the secret differ in that name only. -/
theorem replaceAt?_secretNamePlace {stem name : String} (h : headJob spec stem = .ok job)
    (h' : headJob spec name = .ok job') (ns : String) :
    replaceAt? (.string name) (secretNamePlace spec.volumes.length) (job.inNamespace ns).toJson =
      some (job'.inNamespace ns).toJson := by
  obtain ⟨resources, hr, rfl⟩ := exists_of_headJob h
  obtain ⟨resources', hr', rfl⟩ := exists_of_headJob h'
  rw [hr, Except.ok.injEq] at hr'
  subst hr'
  simp [secretNamePlace, configVolumePlace, Job.toJson, Job.inNamespace, PodSpec.toJson,
    Json.ofMembers, replaceAt?, Json.changeMember?, PodSpec.attach, headPod, podVolumes,
    PodVolume.toJson]

end Manifest
end HeadJob
