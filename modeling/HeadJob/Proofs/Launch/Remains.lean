import HeadJob.Proofs.Launch.Course

/-!
What a launch that fails leaves in the cluster.

No request of a launch removes anything, so all that was created remains.  The error tells how much
that is: a step fails before its object is created, or when the object is there but its reply is of no
use.
-/

namespace HeadJob

open Cluster (Exchange Failure Request Reply Created ObjectKind)

/-! ## What a server keeps -/

/-- The requests of which a server keeps an object: those to create one that it did not refuse. -/
def Cluster.kept : List Request → List Reply → List Request
  | r :: requests, reply :: replies =>
    if r.method = .post ∧ reply.isRefusal = false then r :: kept requests replies
    else kept requests replies
  | _, _ => []

/-- How many objects are created by a request that fails: one if only its reply is of no use. -/
def Cluster.Failure.created : Failure → Nat
  | unsendable _ => 0
  | refused _ => 0
  | unreadable _ => 1

/-- How many objects a launch leaves that fails with this error. -/
def LaunchError.remaining : LaunchError → Nat
  | .resources _ => 0
  | .cluster (.secretFailed cause) => cause.created
  | .cluster .secretUnnamed => 1
  | .cluster (.jobFailed _ cause) => 1 + cause.created
  | .cluster .jobUnnamed => 2
  | .cluster (.jobUnidentified _) => 2

namespace Cluster

variable {r : Request} {reply : Reply} {asked : ObjectKind}

theorem kept_cons_of_ok {object : Created} (hpost : r.method = .post)
    (h : Created.ofReply asked reply = .ok object) (requests : List Request) (replies : List Reply) :
    kept (r :: requests) (reply :: replies) = r :: kept requests replies := by
  rw [Created.ofReply] at h
  split at h
  · cases h
  · next hrefusal => rw [kept, if_pos ⟨hpost, by simpa using hrefusal⟩]

theorem kept_singleton_of_error {cause : Failure} (hpost : r.method = .post)
    (h : Created.ofReply asked reply = .error cause) (replies : List Reply) :
    kept [r] (reply :: replies) = [r].take cause.created := by
  rw [Created.ofReply] at h
  split at h
  · next hrefusal =>
    cases h
    simp [kept, hrefusal, Failure.created]
  · next hrefusal =>
    cases hread : asked.shape.read reply.text.toList with
    | ok v => simp [hread] at h
    | error fault =>
      simp only [hread, Except.error.injEq] at h
      cases h
      simp [kept, hpost, hrefusal, Failure.created]

theorem Failure.created_le_one (cause : Failure) : cause.created ≤ 1 := by
  cases cause <;> simp [created]

theorem addressed_eq_ok {sent : Request} (h : r.addressed = .ok sent) :
    sent.method = r.method ∧ sent.body = r.body := by
  rw [Request.addressed] at h
  cases hpath : Target.path r.path with
  | error fault =>
    rw [hpath] at h
    cases h
  | ok path =>
    rw [hpath] at h
    cases h
    exact ⟨rfl, rfl⟩

end Cluster

namespace Submit

open Cluster (kept)

variable {α : Type} {x : Exchange (Except LaunchError α)} {before : Nat} {kinds : List String}
  {replies : List Reply} {requests : List Request} {e : LaunchError}

/-! ## What an error tells -/

/-- What is sent until this error, when so many objects were created before: requests to create objects
of these kinds.  The first of them succeed, as many as make up the number that the error tells. -/
structure Tells (before : Nat) (kinds : List String) (replies : List Reply)
    (requests : List Request) (e : LaunchError) : Prop where
  before_le : before ≤ e.remaining
  posts : ∀ r ∈ requests, r.method = .post
  kept_eq : kept requests replies = requests.take (e.remaining - before)
  kinds_eq : (kept requests replies).map (·.body.get? "kind") =
    (kinds.take (e.remaining - before)).map fun kind => some (.string kind)

theorem tells_nil (h : e.remaining = before) : Tells before kinds replies [] e where
  before_le := by omega
  posts := by simp
  kept_eq := by simp [kept]
  kinds_eq := by simp [kept, h]

/-- A request to create an object comes before what is done with the object. -/
theorem tells_create {asked : ObjectKind} {r : Request} {kind : String}
    {next : Except Failure Created → Exchange (Except LaunchError α)} (hpost : r.method = .post)
    (hkind : r.body.get? "kind" = some (.string kind))
    (herror : ∀ cause replies requests e,
      (next (.error cause)).run replies = (requests, some (.error e)) →
      requests = [] ∧ e.remaining = before + cause.created)
    (hok : ∀ object replies requests e,
      (next (.ok object)).run replies = (requests, some (.error e)) →
      Tells (before + 1) kinds replies requests e)
    (h : (create asked r next).run replies = (requests, some (.error e))) :
    Tells before (kind :: kinds) replies requests e := by
  rw [create, Exchange.deliver] at h
  cases hsent : r.addressed with
  | error fault =>
    rw [hsent] at h
    obtain ⟨rfl, hremaining⟩ := herror _ _ _ _ h
    exact tells_nil (by simpa [Failure.created] using hremaining)
  | ok sent =>
    obtain ⟨hmethod, hbody⟩ := Cluster.addressed_eq_ok hsent
    rw [← hmethod] at hpost
    rw [← hbody] at hkind
    rw [hsent] at h
    cases replies with
    | nil => cases h
    | cons reply replies =>
      obtain ⟨requests', hrun, rfl⟩ : ∃ requests',
          (next (Created.ofReply asked reply)).run replies = (requests', some (.error e)) ∧
          requests = sent :: requests' := by
        simp only [Exchange.run, Prod.mk.injEq] at h
        exact ⟨_, Prod.ext rfl h.2, h.1.symm⟩
      cases hreply : Created.ofReply asked reply with
      | error cause =>
        rw [hreply] at hrun
        obtain ⟨rfl, hremaining⟩ := herror _ _ _ _ hrun
        have hkept := Cluster.kept_singleton_of_error hpost hreply replies
        have hdiff : e.remaining - before = cause.created := by omega
        refine ⟨by omega, by simpa using hpost, by rw [hkept, hdiff], ?_⟩
        rw [hkept, hdiff]
        obtain hnone | hone := Nat.le_one_iff_eq_zero_or_eq_one.1 cause.created_le_one
        · simp [hnone]
        · simp [hone, hkind]
      | ok object =>
        rw [hreply] at hrun
        have htells := hok _ _ _ _ hrun
        have hkept := Cluster.kept_cons_of_ok hpost hreply requests' replies
        have hle := htells.before_le
        have hdiff : e.remaining - before = e.remaining - (before + 1) + 1 := by omega
        refine ⟨by omega, ?_, ?_, ?_⟩
        · exact List.forall_mem_cons.2 ⟨hpost, htells.posts⟩
        · rw [hkept, hdiff, List.take_succ_cons, htells.kept_eq]
        · rw [hkept, hdiff, List.take_succ_cons, List.map_cons, List.map_cons, htells.kinds_eq, hkind]

variable {spec : LaunchSpec} {accountFile : Option ByteArray} {ns secretName : String}

theorem remaining_of_ownerOf {job : Created} {cause : ClusterError} (h : ownerOf job = .error cause) :
    (LaunchError.cluster cause).remaining = 2 := by
  rw [ownerOf] at h
  split at h
  · cases h
    rfl
  · split at h <;> cases h
    rfl

theorem tells_afterJob {job : Created}
    (h : (afterJob ns spec secretName (.ok job)).run replies = (requests, some (.error e))) :
    Tells 2 [] replies requests e := by
  cases ho : ownerOf job with
  | error cause =>
    simp only [afterJob, ho] at h
    cases h
    exact tells_nil (remaining_of_ownerOf ho)
  | ok owner =>
    rw [run_afterJob_owned ho] at h
    cases (ending_eq_some_iff.1 (Prod.ext_iff.1 h).2).2

theorem tells_afterSecret {secret : Created} {amount : String}
    (hcpu : spec.resources.cpuRequest = .ok amount)
    (h : (afterSecret ns spec (.ok secret)).run replies = (requests, some (.error e))) :
    Tells 1 ["Job"] replies requests e := by
  cases hname : secret.name with
  | none =>
    simp only [afterSecret, hname] at h
    cases h
    exact tells_nil rfl
  | some secretName =>
    obtain ⟨job, hjob⟩ := Manifest.exists_headJob hcpu secretName
    simp only [afterSecret, hname, hjob] at h
    refine tells_create rfl rfl ?_ (fun _ _ _ _ => tells_afterJob) h
    rintro cause replies requests e ⟨⟩
    exact ⟨rfl, rfl⟩

/-! ## What remains -/

theorem tells_launch (h : (launch spec accountFile).run replies = (requests, some (.error e))) :
    Tells 0 ["Secret", "Job"] replies requests e := by
  cases hcpu : spec.resources.cpuRequest with
  | error cause =>
    simp only [launch, hcpu] at h
    cases h
    exact tells_nil rfl
  | ok amount =>
    simp only [launch, hcpu] at h
    refine tells_create rfl rfl ?_ (fun _ _ _ _ => tells_afterSecret hcpu) h
    rintro cause replies requests e ⟨⟩
    exact ⟨rfl, (Nat.zero_add _).symm⟩

/-- All that a failing launch has created remains: it sends no request but those to create objects,
and the error tells of how many of them an object is there. -/
theorem kept_of_launch_eq_error
    (h : (launch spec accountFile).run replies = (requests, some (.error e))) :
    (∀ r ∈ requests, r.method = .post) ∧ kept requests replies = requests.take e.remaining ∧
      (kept requests replies).map (·.body.get? "kind") =
        (["Secret", "Job"].take e.remaining).map fun kind => some (.string kind) :=
  have htells := tells_launch h
  ⟨htells.posts, htells.kept_eq, htells.kinds_eq⟩

/-- The error with which an exchange ended. -/
def failure? : Option (Except LaunchError α) → Option LaunchError
  | some (.error e) => some e
  | _ => none

theorem run_eq_of_failure? (h : failure? (x.run replies).2 = some e) :
    x.run replies = ((x.run replies).1, some (.error e)) := by
  unfold failure? at h
  split at h
  · next e' hresult =>
    cases h
    exact Prod.ext rfl hresult
  · cases h

theorem kept_of_launch_eq_error_of_unidentified : ∃ spec accountFile replies requests,
    (launch spec accountFile).run replies =
        (requests, some (.error (.cluster (.jobUnidentified "heron")))) ∧
      (kept requests replies).map (·.body.get? "kind") =
        [some (.string "Secret"), some (.string "Job")] := by
  obtain ⟨spec, hspec⟩ : ∃ spec : LaunchSpec, spec =
      ⟨"heron", some "team", "nextflow", ["main.nf"], ⟨"1", "8Gi"⟩, [], [], "/work", "k8s"⟩ :=
    ⟨_, rfl⟩
  obtain ⟨replies, hreplies⟩ : ∃ replies : List Reply, replies =
      [⟨201, "\x7b\"metadata\":\x7b\"name\":\"nf-config-7\"\x7d\x7d"⟩,
        ⟨201, "\x7b\"metadata\":\x7b\"name\":\"heron\"\x7d\x7d"⟩] := ⟨_, rfl⟩
  have hfails : failure? ((launch spec none).run replies).2 =
      some (.cluster (.jobUnidentified "heron")) := by
    rw [hspec, hreplies]
    decide +kernel
  have hrun := run_eq_of_failure? hfails
  exact ⟨spec, none, replies, _, hrun, (kept_of_launch_eq_error hrun).2.2⟩

/-- A launch whose job is refused leaves its secret. -/
theorem not_kept_eq_nil : ¬ ∀ spec accountFile replies requests e,
    (launch spec accountFile).run replies = (requests, some (.error e)) →
      kept requests replies = [] := by
  intro hnothing
  obtain ⟨spec, hspec⟩ : ∃ spec : LaunchSpec, spec =
      ⟨"heron", some "team", "nextflow", ["main.nf"], ⟨"1", "8Gi"⟩, [], [], "/work", "k8s"⟩ :=
    ⟨_, rfl⟩
  obtain ⟨replies, hreplies⟩ : ∃ replies : List Reply, replies =
      [⟨201, "\x7b\"metadata\":\x7b\"name\":\"nf-config-7\"\x7d\x7d"⟩, ⟨409, "exists"⟩] := ⟨_, rfl⟩
  have hfails : (failure? ((launch spec none).run replies).2).isSome := by
    rw [hspec, hreplies]
    decide +kernel
  obtain ⟨e, he⟩ := Option.isSome_iff_exists.1 hfails
  have hkept : (kept ((launch spec none).run replies).1 replies).length = 1 := by
    rw [hspec, hreplies]
    decide +kernel
  rw [hnothing _ _ _ _ _ (run_eq_of_failure? he)] at hkept
  cases hkept

end Submit
end HeadJob
