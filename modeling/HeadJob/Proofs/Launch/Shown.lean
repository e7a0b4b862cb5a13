import HeadJob.Launch.Preview
import HeadJob.Proofs.Json.Pretty
import HeadJob.Proofs.Launch.Course
import HeadJob.Proofs.Manifest.Levels

/-!
What a preview shows is what a launch sends.

Both make their objects of the same plan.  The secret has no name before it is sent, so the job that
is shown mounts it by what its name begins with, and the job that is sent by its name.  What is shown is
text, and whoever reads it finds these two objects and nothing else.
-/

namespace HeadJob

open Cluster (Request Reply secretsPath jobsPath)
open Json (at? replaceAt?)

variable {spec : LaunchSpec} {accountFile : Option ByteArray} {ns : String} {replies : List Reply}
  {requests : List Request} {result : Option (Except LaunchError LaunchHandle)}

namespace Preview

open Submit (Course Sendable secretName?)

/-- The text reads as a secret and a job, and they are those that a launch sends, but for the name of the
secret in the job. -/
structure IsSent (spec : LaunchSpec) (ns text : String) (replies : List Reply)
    (requests : List Request) (secret job : Json) : Prop where
  text_eq : text = secret.pretty ++ "\n" ++ job.pretty
  reads : Json.readDocuments text.toList = .ok [secret, job]
  sends_secret : requests[0]? = some ⟨.post, secretsPath ns, secret⟩
  mounts_stem : at? (Manifest.configVolumePlace spec.volumes.length) job =
    some (.object [("name", .string Manifest.configVolumeName),
      ("secret", .object [("secretName", .string Manifest.configSecretStem)])])
  sends_job : ∀ name, secretName? replies = some name → ∃ sent,
    replaceAt? (.string name) (Manifest.secretNamePlace spec.volumes.length) job = some sent ∧
      requests[1]? = some ⟨.post, jobsPath ns, sent⟩
  secret_namespace : at? Manifest.namespacePlace secret = some (.string ns)
  job_namespace : at? Manifest.namespacePlace job = some (.string ns)

/-- A preview for a launch with these requests and this result. -/
structure Foretells (spec : LaunchSpec) (accountFile : Option ByteArray) (ns : String)
    (replies : List Reply) (requests : List Request)
    (result : Option (Except LaunchError LaunchHandle)) : Prop where
  fails_iff : (∃ e, render spec accountFile = .error e) ↔ requests = []
  fails_alike : ∀ e, render spec accountFile = .error e → result = some (.error (.resources e))
  shows : ∀ text, render spec accountFile = .ok text →
    ∃ secret job, IsSent spec ns text replies requests secret job
  prints : ∀ printed handle, launch spec accountFile = .ok (printed, handle) →
    ∃ text secret job, printed = text ++ "\n" ∧ IsSent spec ns text replies requests secret job ∧
      Json.readDocuments printed.toList = .ok [secret, job]
  sends_namespace : ∀ r ∈ requests.take 2, at? Manifest.namespacePlace r.body = some (.string ns)
  shows_handle : ∀ text handle, launch spec accountFile = .ok (text, handle) →
    handle.inNamespace = ns
  gives_handle : ∀ handle, result = some (.ok handle) → handle.inNamespace = ns

theorem render_of_error {e : CpuError} (h : spec.resources.cpuRequest = .error e) :
    render spec accountFile = .error e := by
  have hjob : Manifest.headJob spec Manifest.configSecretStem = .error e :=
    Manifest.headJob_eq_error_iff.2 h
  rw [render, objects, hjob]
  rfl

theorem render_of_ok {job : Manifest.Job} (hns : ns = namespaceOf spec accountFile)
    (hjob : Manifest.headJob spec Manifest.configSecretStem = .ok job) :
    render spec accountFile = .ok (((Manifest.configSecret spec).inNamespace ns).toJson.pretty ++
      "\n" ++ (job.inNamespace ns).toJson.pretty) := by
  rw [render, objects, hjob, hns]
  rfl

/-- The secret and the job are read off the text, and space after it does no harm. -/
theorem readDocuments_shown {job : Manifest.Job}
    (hjob : Manifest.headJob spec Manifest.configSecretStem = .ok job) (ns : String) (space : Text)
    (hspace : ∀ c ∈ space, Json.isSpace c = true) :
    Json.readDocuments ((((Manifest.configSecret spec).inNamespace ns).toJson.pretty ++ "\n" ++
        (job.inNamespace ns).toJson.pretty).toList ++ space) =
      .ok [((Manifest.configSecret spec).inNamespace ns).toJson, (job.inNamespace ns).toJson] := by
  have hsecret := Manifest.fits_secret 124 ((Manifest.configSecret spec).inNamespace ns)
  have hfits := Manifest.fits_headJob hjob ns 118
  have hread := Json.readDocuments_intercalate
    [((Manifest.configSecret spec).inNamespace ns).toJson, (job.inNamespace ns).toJson]
    (List.forall_mem_cons.2 ⟨hsecret, List.forall_mem_singleton.2 hfits⟩) hspace
  simpa using hread

theorem isSent_of_course {amount : String} {shown : Manifest.Job}
    (h : Course spec ns replies requests result) (hcpu : spec.resources.cpuRequest = .ok amount)
    (hshown : Manifest.headJob spec Manifest.configSecretStem = .ok shown) :
    IsSent spec ns (((Manifest.configSecret spec).inNamespace ns).toJson.pretty ++ "\n" ++
        (shown.inNamespace ns).toJson.pretty) replies requests
      ((Manifest.configSecret spec).inNamespace ns).toJson (shown.inNamespace ns).toJson where
  text_eq := rfl
  reads := by
    have hread := readDocuments_shown hshown ns [] (List.forall_mem_nil _)
    rwa [List.append_nil] at hread
  sends_secret := h.getElem?_zero hcpu
  mounts_stem := Manifest.at?_configVolumePlace hshown ns
  sends_job name hname := by
    obtain ⟨job, hjob, hsent⟩ := h.getElem?_one hcpu hname
    exact ⟨_, Manifest.replaceAt?_secretNamePlace hshown hjob ns, hsent⟩
  secret_namespace := Manifest.at?_namespacePlace_secret _ _
  job_namespace := Manifest.at?_namespacePlace_job _ _

theorem launch_eq_ok_iff {printed : String} {handle : LaunchHandle} :
    launch spec accountFile = .ok (printed, handle) ↔
      ∃ text, render spec accountFile = .ok text ∧ printed = text ++ "\n" ∧
        handle = ⟨spec.name, namespaceOf spec accountFile, Manifest.configSecretStem, launcher⟩ := by
  rw [launch]
  cases render spec accountFile with
  | error e => simp [Except.map]
  | ok text => simp [Except.map, eq_comm]

theorem foretells_of_course (hns : ns = namespaceOf spec accountFile)
    (h : Course spec ns replies requests result) :
    Foretells spec accountFile ns replies requests result := by
  have hhandle : ∀ text handle, launch spec accountFile = .ok (text, handle) →
      handle.inNamespace = ns := by
    intro printed handle hlaunch
    obtain ⟨text, -, -, rfl⟩ := launch_eq_ok_iff.1 hlaunch
    exact hns.symm
  have hgiven : ∀ handle, result = some (.ok handle) → handle.inNamespace = ns := by
    rintro handle rfl
    obtain ⟨name, -, rfl⟩ := h.eq_handle
    rfl
  cases hcpu : spec.resources.cpuRequest with
  | error e =>
    have hrender : render spec accountFile = .error e := render_of_error hcpu
    obtain ⟨hrequests, hresult⟩ := h.eq_nil hcpu
    exact
      { fails_iff := by simp [hrender, hrequests]
        fails_alike := by simp [hrender, hresult]
        shows := by simp [hrender]
        prints := by simp [launch_eq_ok_iff, hrender]
        sends_namespace := h.at?_namespacePlace
        shows_handle := hhandle
        gives_handle := hgiven }
  | ok amount =>
    obtain ⟨shown, hshown⟩ := Manifest.exists_headJob hcpu Manifest.configSecretStem
    have hrender := render_of_ok hns hshown
    have hrequests : requests ≠ [] := by
      rintro rfl
      cases h.getElem?_zero hcpu
    exact
      { fails_iff := by simp [hrender, hrequests]
        fails_alike := by simp [hrender]
        shows := fun text htext => by
          cases hrender.symm.trans htext
          exact ⟨_, _, isSent_of_course h hcpu hshown⟩
        prints := fun printed handle hlaunch => by
          obtain ⟨text, htext, rfl, -⟩ := launch_eq_ok_iff.1 hlaunch
          cases hrender.symm.trans htext
          refine ⟨_, _, _, rfl, isSent_of_course h hcpu hshown, ?_⟩
          rw [String.toList_append]
          exact readDocuments_shown hshown ns ['\n'] (List.forall_mem_singleton.2 rfl)
        sends_namespace := h.at?_namespacePlace
        shows_handle := hhandle
        gives_handle := hgiven }

end Preview
end HeadJob
