import Mathlib.Data.List.Nodup
import HeadJob.Proofs.Manifest.Head

/-!
The volumes of a head job, and where its container mounts them.

A claim gives one volume of the pod and one mount of the container, in the same place of either list and
under the same name.  Behind the claims both lists end with the secret.  Volumes are told apart by their
names: the names of claims are numbered, and the name of the secret is none of these.
-/

namespace HeadJob
namespace Manifest

/-- The volumes of a pod and the mounts of its container go together: one of each for every claim, in
the order of the claims, then one for the secret, and only the secret is mounted to be read only. -/
structure Corresponds (claims : List Volume) (secretName : String) (volumes : List PodVolume)
    (mounts : List VolumeMount) : Prop where
  length_volumes : volumes.length = claims.length + 1
  length_mounts : mounts.length = claims.length + 1
  nodup : (volumes.map PodVolume.name).Nodup
  claim : ∀ (i : Nat) (v : Volume), claims[i]? = some v → ∃ name,
    volumes[i]? = some (PodVolume.mk name (.claim (String.ofList v.claim) false)) ∧
      mounts[i]? = some (VolumeMount.mk name (String.ofList v.path) none)
  secret : ∃ name, volumes.getLast? = some ⟨name, .secret secretName⟩ ∧
    mounts.getLast? = some ⟨name, "/etc/nextflow", some true⟩
  readOnly : ∀ (i : Nat) (m : VolumeMount), mounts[i]? = some m → m.readOnly = some true →
    i = claims.length

/-! ## The names of volumes -/

/-- The number can be read off the name. -/
theorem claimVolumeName_injective : Function.Injective claimVolumeName := by
  intro i j h
  have hdigits : Nat.toDigits 10 i = Nat.toDigits 10 j := by
    have hnumber := (String.append_right_inj "vol-").1 h
    rwa [Nat.toString_eq_ofList_toDigits, Nat.toString_eq_ofList_toDigits, String.ofList_inj]
      at hnumber
  calc i = Nat.ofDigitChars 10 (Nat.toDigits 10 i) 0 := Nat.ofDigitChars_ten_toDigits.symm
    _ = j := by rw [hdigits, Nat.ofDigitChars_ten_toDigits]

theorem claimVolumeName_ne_configVolumeName (i : Nat) : claimVolumeName i ≠ configVolumeName := by
  intro h
  have hfirst := congrArg (fun name => name.toList.head?) h
  simp [claimVolumeName, configVolumeName] at hfirst

theorem map_name_podVolumes (claims : List Volume) (secretName : String) :
    (podVolumes claims secretName).map PodVolume.name =
      (List.range claims.length).map claimVolumeName ++ [configVolumeName] := by
  refine List.ext_getElem? fun i => ?_
  rw [podVolumes, List.map_append, List.getElem?_append, List.getElem?_append]
  simp only [List.length_map, List.length_mapIdx, List.length_range]
  by_cases hi : i < claims.length
  · simp [hi]
  · simp [hi]

theorem nodup_map_name_podVolumes (claims : List Volume) (secretName : String) :
    ((podVolumes claims secretName).map PodVolume.name).Nodup := by
  rw [map_name_podVolumes, List.nodup_append]
  refine ⟨List.nodup_range.map claimVolumeName_injective, List.nodup_singleton _, ?_⟩
  intro name hname last hlast
  obtain ⟨i, -, rfl⟩ := List.mem_map.1 hname
  rw [List.mem_singleton.1 hlast]
  exact claimVolumeName_ne_configVolumeName i

/-! ## The two lists -/

theorem getElem?_podVolumes {claims : List Volume} {i : Nat} {v : Volume}
    (h : claims[i]? = some v) (secretName : String) :
    (podVolumes claims secretName)[i]? =
      some ⟨claimVolumeName i, .claim (String.ofList v.claim) false⟩ := by
  have hi : i < claims.length := (List.getElem?_eq_some_iff.1 h).1
  rw [podVolumes, List.getElem?_append_left (by simpa using hi), List.getElem?_mapIdx, h,
    Option.map_some]

theorem getElem?_volumeMounts {claims : List Volume} {i : Nat} {v : Volume}
    (h : claims[i]? = some v) :
    (volumeMounts claims)[i]? = some ⟨claimVolumeName i, String.ofList v.path, none⟩ := by
  have hi : i < claims.length := (List.getElem?_eq_some_iff.1 h).1
  rw [volumeMounts, List.getElem?_append_left (by simpa using hi), List.getElem?_mapIdx, h,
    Option.map_some]

theorem length_podVolumes (claims : List Volume) (secretName : String) :
    (podVolumes claims secretName).length = claims.length + 1 := by
  rw [podVolumes, List.length_append, List.length_mapIdx, List.length_singleton]

theorem length_volumeMounts (claims : List Volume) :
    (volumeMounts claims).length = claims.length + 1 := by
  rw [volumeMounts, List.length_append, List.length_mapIdx, List.length_singleton]

theorem corresponds (claims : List Volume) (secretName : String) :
    Corresponds claims secretName (podVolumes claims secretName) (volumeMounts claims) where
  length_volumes := length_podVolumes claims secretName
  length_mounts := length_volumeMounts claims
  nodup := nodup_map_name_podVolumes claims secretName
  claim := fun i _ h => ⟨claimVolumeName i, getElem?_podVolumes h secretName, getElem?_volumeMounts h⟩
  secret := ⟨configVolumeName, List.getLast?_concat, List.getLast?_concat⟩
  readOnly := by
    intro i m hm hreadOnly
    have hlt : i < claims.length + 1 := by
      rw [← length_volumeMounts claims]
      exact (List.getElem?_eq_some_iff.1 hm).1
    by_contra hi
    have hclaim := getElem?_volumeMounts (List.getElem?_eq_getElem (show i < claims.length by omega))
    rw [hm, Option.some_inj] at hclaim
    rw [hclaim] at hreadOnly
    cases hreadOnly

/-- A head job has one container, and its mounts go together with the volumes of the pod: one for every
claim, each under a name of its own, and then the secret. -/
theorem corresponds_of_headJob {spec : LaunchSpec} {secretName : String} {job : Job}
    (h : headJob spec secretName = .ok job) :
    ∃ container volumes mounts, job.pod.containers = [container] ∧
      job.pod.volumes = some volumes ∧ container.mounts = some mounts ∧
      Corresponds spec.volumes secretName volumes mounts := by
  obtain ⟨resources, -, rfl⟩ := exists_of_headJob h
  exact ⟨_, _, _, rfl, rfl, rfl, corresponds spec.volumes secretName⟩

/-- One claim is mounted at two places. -/
theorem corresponds_of_headJob_of_repeated_claim :
    ∃ spec job container volumes mounts, headJob spec "nf-config-7" = .ok job ∧
      spec.volumes = [⟨"w".toList, "/w".toList⟩, ⟨"w".toList, "/home".toList⟩] ∧
      job.pod.containers = [container] ∧ job.pod.volumes = some volumes ∧
      container.mounts = some mounts ∧ Corresponds spec.volumes "nf-config-7" volumes mounts ∧
      mounts = [⟨"vol-0", "/w", none⟩, ⟨"vol-1", "/home", none⟩,
        ⟨"nextflow-config", "/etc/nextflow", some true⟩] := by
  have hcpu : (Resources.mk "1" "8Gi").cpuRequest = .ok "0.5" := by rfl
  let spec : LaunchSpec := ⟨"heron", none, "nextflow", ["main.nf"], ⟨"1", "8Gi"⟩, [],
    [⟨"w".toList, "/w".toList⟩, ⟨"w".toList, "/home".toList⟩], "/w", "k8s"⟩
  have hexists : ∃ job, headJob spec "nf-config-7" = .ok job := exists_headJob hcpu "nf-config-7"
  obtain ⟨job, hjob⟩ := hexists
  obtain ⟨container, volumes, mounts, hcontainers, hvolumes, hmounts, h⟩ := corresponds_of_headJob hjob
  refine ⟨spec, job, container, volumes, mounts, hjob, rfl, hcontainers, hvolumes, hmounts, h, ?_⟩
  obtain ⟨resources, -, rfl⟩ := exists_of_headJob hjob
  cases hcontainers
  cases hmounts
  rfl

end Manifest
end HeadJob
