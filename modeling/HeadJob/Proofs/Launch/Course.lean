import HeadJob.Launch.Submit
import HeadJob.Proofs.Manifest.Head

/-!
The course of a launch in a cluster, by the replies that it gets.

How far a launch comes depends on two things in the replies: the name that the first one gives the
secret, and the owner that the second one makes of the job.  The main statement says what is sent in
which order, of what, and when the launch succeeds.
-/

namespace HeadJob
namespace Submit

open Cluster (Exchange Request Reply Created ObjectKind secretsPath jobsPath secretPath)
open Cluster.Target (isPathChar maxSize path_of_all)
open Json (at?)

variable {spec : LaunchSpec} {accountFile : Option ByteArray} {ns secretName : String}
  {replies : List Reply} {requests : List Request}
  {result : Option (Except LaunchError LaunchHandle)}

/-! ## What replies give -/

/-- The name that the first reply gives the secret. -/
def secretName? (replies : List Reply) : Option String := do
  let reply ← replies[0]?
  let secret ← (Created.ofReply .secret reply).toOption
  secret.name

/-- The owner that the second reply makes of the job. -/
def owner? (replies : List Reply) : Option Manifest.OwnerReference := do
  let reply ← replies[1]?
  let job ← (Created.ofReply .job reply).toOption
  return ⟨← job.name, ← job.uid⟩

section

variable {first reply : Reply} {cause : Cluster.Failure} {created : Created}

theorem secretName?_of_error (h : Created.ofReply .secret reply = .error cause) :
    secretName? (reply :: replies) = none := by
  simp [secretName?, h, Except.toOption]

theorem secretName?_of_ok (h : Created.ofReply .secret reply = .ok created) :
    secretName? (reply :: replies) = created.name := by
  simp [secretName?, h, Except.toOption]

theorem owner?_of_error (h : Created.ofReply .job reply = .error cause) :
    owner? (first :: reply :: replies) = none := by
  simp [owner?, h, Except.toOption]

theorem owner?_of_ok (h : Created.ofReply .job reply = .ok created) :
    owner? (first :: reply :: replies) = (ownerOf created).toOption := by
  obtain ⟨name, uid⟩ := created
  cases name <;> cases uid <;> simp [owner?, h, Except.toOption, ownerOf]

end

/-! ## What can be sent -/

/-- The client can send the requests that create: their targets need no escapes. -/
structure Sendable (ns : String) : Prop where
  secrets : Cluster.Target.path (secretsPath ns) = .ok (secretsPath ns)
  jobs : Cluster.Target.path (jobsPath ns) = .ok (jobsPath ns)

/-- The client can send a request to a secret of this name. -/
structure Addressable (ns name : String) : Prop where
  named : name ≠ ""
  path : Cluster.Target.path (secretPath ns name) = .ok (secretPath ns name)

section

variable {a b c name : String}

theorem all_append (ha : a.toList.all isPathChar = true) (hb : b.toList.all isPathChar = true)
    (hc : c.toList.all isPathChar = true) : (a ++ b ++ c).toList.all isPathChar = true := by
  rw [String.toList_append, String.toList_append, List.all_append, List.all_append, ha, hb, hc]
  rfl

theorem all_secretsPath (h : ns.toList.all isPathChar = true) :
    (secretsPath ns).toList.all isPathChar = true :=
  all_append (by decide +kernel) h (by decide +kernel)

theorem size_append (a b c : String) :
    (a ++ b ++ c).utf8ByteSize = a.utf8ByteSize + b.utf8ByteSize + c.utf8ByteSize := by
  rw [String.utf8ByteSize_append, String.utf8ByteSize_append]

theorem size_secretsPath (ns : String) :
    (secretsPath ns).utf8ByteSize = 19 + ns.utf8ByteSize + 8 := by
  have hfront : "/api/v1/namespaces/".utf8ByteSize = 19 := by decide +kernel
  have hback : "/secrets".utf8ByteSize = 8 := by decide +kernel
  rw [← hfront, ← hback]
  exact size_append _ ns _

theorem size_jobsPath (ns : String) : (jobsPath ns).utf8ByteSize = 26 + ns.utf8ByteSize + 5 := by
  have hfront : "/apis/batch/v1/namespaces/".utf8ByteSize = 26 := by decide +kernel
  have hback : "/jobs".utf8ByteSize = 5 := by decide +kernel
  rw [← hfront, ← hback]
  exact size_append _ ns _

/-- A namespace that needs no escapes can be sent to, unless it is as long as no target may be. -/
theorem sendable_of_all (h : ns.toList.all isPathChar = true)
    (size : ns.utf8ByteSize + 31 < maxSize) : Sendable ns where
  secrets := path_of_all (all_secretsPath h) (by rw [size_secretsPath]; omega)
  jobs := path_of_all (all_append (by decide +kernel) h (by decide +kernel))
    (by rw [size_jobsPath]; omega)

theorem addressable_of_all (hne : name ≠ "") (hns : ns.toList.all isPathChar = true)
    (hname : name.toList.all isPathChar = true)
    (size : ns.utf8ByteSize + name.utf8ByteSize + 28 < maxSize) : Addressable ns name where
  named := hne
  path := by
    have hslash : "/".utf8ByteSize = 1 := by decide +kernel
    refine path_of_all (all_append (all_secretsPath hns) (by decide +kernel) hname) ?_
    rw [secretPath, size_append, size_secretsPath, hslash]
    omega

end

/-! ## What is sent -/

theorem addressed_of_path {r : Request} (h : Cluster.Target.path r.path = .ok r.path) :
    r.addressed = .ok r := by
  rw [Request.addressed, h]
  rfl

theorem run_create_nil {asked : ObjectKind} {r : Request} {α : Type}
    {next : Except Cluster.Failure Created → Exchange α} (h : r.addressed = .ok r) :
    (create asked r next).run [] = ([r], none) := by
  simp [create, Exchange.deliver, h, Exchange.run]

theorem run_create_cons {asked : ObjectKind} {r : Request} {α : Type}
    {next : Except Cluster.Failure Created → Exchange α} (h : r.addressed = .ok r) (reply : Reply) :
    (create asked r next).run (reply :: replies) =
      (r :: ((next (Created.ofReply asked reply)).run replies).1,
        ((next (Created.ofReply asked reply)).run replies).2) := by
  simp [create, Exchange.deliver, h, Exchange.run]

def secretRequest (spec : LaunchSpec) (ns : String) : Request :=
  createSecret ns ((Manifest.configSecret spec).inNamespace ns)

def jobRequest (job : Manifest.Job) (ns : String) : Request := createJob ns (job.inNamespace ns)

/-- What is sent to set the owner: one request, unless its target cannot be addressed. -/
def ownerRequests (ns secretName : String) (owner : Manifest.OwnerReference) : List Request :=
  if secretName = "" then []
  else match (setOwner ns secretName owner).addressed with
    | .error _ => []
    | .ok sent => [sent]

/-- A client that has sent `n` requests ends when each of them is answered. -/
def ending (n : Nat) (replies : List Reply) (r : Except LaunchError LaunchHandle) :
    Option (Except LaunchError LaunchHandle) :=
  if n ≤ replies.length then some r else none

theorem ending_eq_some_iff {n : Nat} {r r' : Except LaunchError LaunchHandle} :
    ending n replies r = some r' ↔ n ≤ replies.length ∧ r = r' := by
  rw [ending]
  split <;> simp [*]

/-- How far a launch comes, and how it ends. -/
inductive Course (spec : LaunchSpec) (ns : String) (replies : List Reply) :
    List Request → Option (Except LaunchError LaunchHandle) → Prop
  | refused {e : CpuError} (hcpu : spec.resources.cpuRequest = .error e) :
    Course spec ns replies [] (some (.error (.resources e)))
  | unnamed {amount : String} {e : LaunchError} (hcpu : spec.resources.cpuRequest = .ok amount)
    (hname : secretName? replies = none) :
    Course spec ns replies [secretRequest spec ns] (ending 1 replies (.error e))
  | unowned {amount name : String} {job : Manifest.Job} {e : LaunchError}
    (hcpu : spec.resources.cpuRequest = .ok amount) (hname : secretName? replies = some name)
    (hjob : Manifest.headJob spec name = .ok job) (howner : owner? replies = none) :
    Course spec ns replies [secretRequest spec ns, jobRequest job ns] (ending 2 replies (.error e))
  | owned {amount name : String} {job : Manifest.Job} {owner : Manifest.OwnerReference}
    (hcpu : spec.resources.cpuRequest = .ok amount) (hname : secretName? replies = some name)
    (hjob : Manifest.headJob spec name = .ok job) (howner : owner? replies = some owner) :
    Course spec ns replies (secretRequest spec ns :: jobRequest job ns :: ownerRequests ns name owner)
      (ending (2 + (ownerRequests ns name owner).length) replies
        (.ok ⟨spec.name, ns, name, launcher⟩))

theorem run_afterJob_owned {job : Created} {owner : Manifest.OwnerReference}
    (h : ownerOf job = .ok owner) (replies : List Reply) :
    (afterJob ns spec secretName (.ok job)).run replies =
      (ownerRequests ns secretName owner,
        ending (ownerRequests ns secretName owner).length replies
          (.ok ⟨spec.name, ns, secretName, launcher⟩)) := by
  simp only [afterJob, h, ownerRequests]
  split
  · rfl
  · rw [Exchange.deliver]
    cases (setOwner ns secretName owner).addressed with
    | error fault => rfl
    | ok sent => cases replies <;> rfl

/-- The course from where the secret has its name. -/
theorem course_create_job {amount : String} {reply : Reply} {job : Manifest.Job}
    (hcpu : spec.resources.cpuRequest = .ok amount)
    (hname : secretName? (reply :: replies) = some secretName)
    (hjob : Manifest.headJob spec secretName = .ok job)
    (hsend : (jobRequest job ns).addressed = .ok (jobRequest job ns)) :
    Course spec ns (reply :: replies)
      (secretRequest spec ns ::
        ((create .job (jobRequest job ns) (afterJob ns spec secretName)).run replies).1)
      ((create .job (jobRequest job ns) (afterJob ns spec secretName)).run replies).2 := by
  rcases replies with _ | ⟨reply', replies⟩
  · rw [run_create_nil hsend]
    exact .unowned (e := .cluster .jobUnnamed) hcpu hname hjob rfl
  rw [run_create_cons hsend]
  cases hcreated : Created.ofReply .job reply' with
  | error cause => exact .unowned hcpu hname hjob (owner?_of_error hcreated)
  | ok created =>
    cases ho : ownerOf created with
    | error e =>
      have howner : owner? (reply :: reply' :: replies) = none := by
        rw [owner?_of_ok hcreated, ho, Except.toOption]
      simp only [afterJob, ho]
      exact .unowned hcpu hname hjob howner
    | ok owner =>
      have howner : owner? (reply :: reply' :: replies) = some owner := by
        rw [owner?_of_ok hcreated, ho, Except.toOption]
      rw [run_afterJob_owned ho]
      have hcourse : Course spec ns _ _ _ := .owned hcpu hname hjob howner
      simpa [ending, Nat.add_comm 2] using hcourse

/-- Every launch takes one of the courses. -/
theorem course_launch (hns : ns = chooseNamespace spec.configuredNamespace accountFile)
    (hsend : Sendable ns) (replies : List Reply) :
    Course spec ns replies ((launch spec accountFile).run replies).1
      ((launch spec accountFile).run replies).2 := by
  have hsecret : (secretRequest spec ns).addressed = .ok (secretRequest spec ns) :=
    addressed_of_path hsend.secrets
  have hjob (job : Manifest.Job) : (jobRequest job ns).addressed = .ok (jobRequest job ns) :=
    addressed_of_path hsend.jobs
  simp only [launch, ← hns]
  cases hcpu : spec.resources.cpuRequest with
  | error e => exact .refused hcpu
  | ok amount =>
    rw [← secretRequest]
    rcases replies with _ | ⟨reply, replies⟩
    · rw [run_create_nil hsecret]
      exact .unnamed (e := .cluster .secretUnnamed) hcpu rfl
    rw [run_create_cons hsecret]
    cases hcreated : Created.ofReply .secret reply with
    | error cause => exact .unnamed hcpu (secretName?_of_error hcreated)
    | ok secret =>
      cases hn : secret.name with
      | none =>
        simp only [afterSecret, hn]
        exact .unnamed hcpu ((secretName?_of_ok hcreated).trans hn)
      | some name =>
        have hname (replies : List Reply) : secretName? (reply :: replies) = some name :=
          (secretName?_of_ok hcreated).trans hn
        obtain ⟨job, hheadJob⟩ := Manifest.exists_headJob hcpu name
        simp only [afterSecret, hn, hheadJob]
        rw [← jobRequest]
        exact course_create_job hcpu (hname _) hheadJob (hjob job)

/-! ## What a course sends -/

section

variable {amount name : String} {e : CpuError}

theorem Course.eq_nil (h : Course spec ns replies requests result)
    (hcpu : spec.resources.cpuRequest = .error e) :
    requests = [] ∧ result = some (.error (.resources e)) := by
  cases h with
  | refused hcpu' =>
    cases hcpu.symm.trans hcpu'
    exact ⟨rfl, rfl⟩
  | unnamed hcpu' | unowned hcpu' | owned hcpu' => cases hcpu.symm.trans hcpu'

theorem Course.getElem?_zero (h : Course spec ns replies requests result)
    (hcpu : spec.resources.cpuRequest = .ok amount) :
    requests[0]? = some (secretRequest spec ns) := by
  cases h with
  | refused hcpu' => cases hcpu.symm.trans hcpu'
  | unnamed | unowned | owned => rfl

theorem Course.getElem?_one (h : Course spec ns replies requests result)
    (hcpu : spec.resources.cpuRequest = .ok amount) (hname : secretName? replies = some name) :
    ∃ job, Manifest.headJob spec name = .ok job ∧ requests[1]? = some (jobRequest job ns) := by
  cases h with
  | refused hcpu' => cases hcpu.symm.trans hcpu'
  | unnamed _ hnone => cases hname.symm.trans hnone
  | unowned _ hsome hjob | owned _ hsome hjob =>
    cases hname.symm.trans hsome
    exact ⟨_, hjob, rfl⟩

theorem Course.at?_namespacePlace (h : Course spec ns replies requests result) :
    ∀ r ∈ requests.take 2, at? Manifest.namespacePlace r.body = some (.string ns) := by
  have hsecret : at? Manifest.namespacePlace (secretRequest spec ns).body = some (.string ns) :=
    Manifest.at?_namespacePlace_secret _ _
  have hjobs (job : Manifest.Job) :
      at? Manifest.namespacePlace (jobRequest job ns).body = some (.string ns) :=
    Manifest.at?_namespacePlace_job _ _
  cases h with
  | refused => simp
  | unnamed => simp [hsecret]
  | unowned | owned => simp [hsecret, hjobs]

theorem Course.eq_handle {handle : LaunchHandle}
    (h : Course spec ns replies requests (some (.ok handle))) :
    ∃ name, secretName? replies = some name ∧ handle = ⟨spec.name, ns, name, launcher⟩ := by
  generalize hr : some (Except.ok handle) = result at h
  cases h with
  | refused => cases hr
  | unnamed | unowned => cases (ending_eq_some_iff.1 hr.symm).2
  | owned _ hname =>
    cases (ending_eq_some_iff.1 hr.symm).2
    exact ⟨_, hname, rfl⟩

end

/-! ## Requests in order -/

/-- What a launch into a namespace has sent and given, by the replies that it got. -/
structure IsOrderly (spec : LaunchSpec) (ns : String) (replies : List Reply)
    (requests : List Request) (result : Option (Except LaunchError LaunchHandle)) : Prop where
  order : ∃ name, requests.map (fun r => (r.method, r.path)) <+:
    [(.post, secretsPath ns), (.post, jobsPath ns), (.mergePatch, secretPath ns name)]
  /-- The secret is sent if the amounts are accepted, the job if the secret has a name, and the owner
  if the job has a name and an identity. -/
  sends_secret : 1 ≤ requests.length ↔ ∃ amount, spec.resources.cpuRequest = .ok amount
  sends_job : 2 ≤ requests.length ↔ 1 ≤ requests.length ∧ ∃ name, secretName? replies = some name
  sends_owner : 3 ≤ requests.length ↔ 2 ≤ requests.length ∧ ∃ owner, owner? replies = some owner
  /-- The launch ends with the reply to its last request. -/
  ends : (∃ r, result = some r) ↔ requests.length ≤ replies.length
  succeeds : ∀ r, result = some r → ((∃ handle, r = .ok handle) ↔ requests.length = 3)
  posts_into : ∀ r ∈ requests.take 2, at? Manifest.namespacePlace r.body = some (.string ns)
  mounts_secret : ∀ r ∈ requests[1]?, ∃ name, secretName? replies = some name ∧
    at? (Manifest.configVolumePlace spec.volumes.length) r.body =
      some (.object [("name", .string Manifest.configVolumeName),
        ("secret", .object [("secretName", .string name)])])
  patches_secret : ∀ r ∈ requests[2]?, ∃ name owner,
    secretName? replies = some name ∧ owner? replies = some owner ∧
      r.path = secretPath ns name ∧
      r.body = .object [("metadata", .object [("ownerReferences", .array [
        .object [("apiVersion", .string "batch/v1"), ("blockOwnerDeletion", .bool true),
          ("controller", .bool true), ("kind", .string "Job"), ("name", .string owner.name),
          ("uid", .string owner.uid)]])])]
  gives_handle : ∀ handle, result = some (.ok handle) → ∃ name, secretName? replies = some name ∧
    handle = ⟨spec.name, ns, name, launcher⟩

theorem ownerRequests_of_addressable (h : Addressable ns secretName)
    (owner : Manifest.OwnerReference) :
    ownerRequests ns secretName owner = [setOwner ns secretName owner] := by
  rw [ownerRequests, if_neg h.named,
    addressed_of_path (r := setOwner ns secretName owner) h.path]

theorem Course.isOrderly (h : Course spec ns replies requests result)
    (hname : ∀ name, secretName? replies = some name → Addressable ns name) :
    IsOrderly spec ns replies requests result := by
  have hinto := h.at?_namespacePlace
  have hhandle : ∀ handle, result = some (.ok handle) → ∃ name, secretName? replies = some name ∧
      handle = ⟨spec.name, ns, name, launcher⟩ := by
    rintro handle rfl
    exact h.eq_handle
  cases h with
  | refused hcpu =>
    constructor
    case order => exact ⟨"", List.nil_prefix⟩
    case posts_into => exact hinto
    case gives_handle => exact hhandle
    all_goals simp [hcpu]
  | unnamed hcpu hnone =>
    constructor
    case order => exact ⟨"", _, rfl⟩
    case posts_into => exact hinto
    case gives_handle => exact hhandle
    all_goals simp [hcpu, hnone, ending_eq_some_iff]
  | unowned hcpu hsome hjob hnone =>
    have hmount := Manifest.at?_configVolumePlace hjob ns
    constructor
    case order => exact ⟨"", _, rfl⟩
    case posts_into => exact hinto
    case mounts_secret => simp [hsome, jobRequest, createJob, hmount]
    case gives_handle => exact hhandle
    all_goals simp [hcpu, hsome, hnone, ending_eq_some_iff]
  | owned hcpu hsome hjob howner =>
    have hmount := Manifest.at?_configVolumePlace hjob ns
    rw [ownerRequests_of_addressable (hname _ hsome)] at hinto hhandle ⊢
    constructor
    case order => exact ⟨_, [], rfl⟩
    case posts_into => exact hinto
    case mounts_secret => simp [hsome, jobRequest, createJob, hmount]
    case patches_secret => simp [hsome, howner, setOwner, Manifest.OwnerReference.toJson]
    case gives_handle => exact hhandle
    all_goals simp [hcpu, hsome, howner, ending_eq_some_iff]

/-- A launch sends its requests in order, each only if what it needs came with the replies before,
and all that it says of the namespace, the secret and the owner is the same in each place. -/
theorem isOrderly_launch (hns : ns = chooseNamespace spec.configuredNamespace accountFile)
    (hsend : Sendable ns) (hname : ∀ name, secretName? replies = some name → Addressable ns name) :
    IsOrderly spec ns replies ((launch spec accountFile).run replies).1
      ((launch spec accountFile).run replies).2 :=
  (course_launch hns hsend replies).isOrderly hname

theorem isOrderly_launch_of_refused_patch : ∃ spec replies, ∃ owner : Manifest.OwnerReference,
    "team" = chooseNamespace spec.configuredNamespace none ∧ Sendable "team" ∧
      Addressable "team" "nf-config-7" ∧ secretName? replies = some "nf-config-7" ∧
      owner? replies = some owner ∧
      IsOrderly spec "team" replies ((launch spec none).run replies).1
        ((launch spec none).run replies).2 ∧
      ((launch spec none).run replies).2 =
        some (.ok ⟨"heron", "team", "nf-config-7", "kubernetes"⟩) := by
  obtain ⟨spec, hspec⟩ : ∃ spec : LaunchSpec, spec =
      ⟨"heron", some "team", "nextflow", ["main.nf"], ⟨"1", "8Gi"⟩, [], [], "/work", "k8s"⟩ :=
    ⟨_, rfl⟩
  obtain ⟨replies, hreplies⟩ : ∃ replies : List Reply, replies =
      [⟨201, "\x7b\"metadata\":\x7b\"name\":\"nf-config-7\"\x7d\x7d"⟩,
        ⟨201, "\x7b\"metadata\":\x7b\"name\":\"heron\",\"uid\":\"4f\"\x7d\x7d"⟩, ⟨403, "no"⟩] :=
    ⟨_, rfl⟩
  have hns : "team" = chooseNamespace spec.configuredNamespace none := by
    rw [hspec]
    rfl
  have hsend : Sendable "team" := sendable_of_all (by decide +kernel) (by decide +kernel)
  have haddress : Addressable "team" "nf-config-7" :=
    addressable_of_all (by decide) (by decide +kernel) (by decide +kernel) (by decide +kernel)
  have hname : secretName? replies = some "nf-config-7" := by
    rw [hreplies]
    decide +kernel
  have howner : owner? replies = some ⟨"heron", "4f"⟩ := by
    rw [hreplies]
    decide +kernel
  have haddresses : ∀ name, secretName? replies = some name → Addressable "team" name := by
    intro name h
    cases hname.symm.trans h
    exact haddress
  have horderly := isOrderly_launch hns hsend haddresses
  refine ⟨spec, replies, _, hns, hsend, haddress, hname, howner, horderly, ?_⟩
  have hcpu : spec.resources.cpuRequest = .ok "0.5" := by
    rw [hspec]
    rfl
  have htwo := horderly.sends_job.2 ⟨horderly.sends_secret.2 ⟨_, hcpu⟩, _, hname⟩
  have hthree := horderly.sends_owner.2 ⟨htwo, _, howner⟩
  obtain ⟨name, hprefix⟩ := horderly.order
  have hlength : ((launch spec none).run replies).1.length = 3 :=
    Nat.le_antisymm (by simpa using hprefix.length_le) hthree
  obtain ⟨r, hr⟩ := horderly.ends.2 (by rw [hlength, hreplies]; decide)
  obtain ⟨handle, rfl⟩ := (horderly.succeeds r hr).2 hlength
  obtain ⟨secret, hsecret, rfl⟩ := horderly.gives_handle handle hr
  cases hname.symm.trans hsecret
  rw [hr, hspec, launcher]

end Submit
end HeadJob
