import HeadJob.Proofs.Document.Delivered
import HeadJob.Proofs.Volume.Applied

/-!
The manifest of a job and the configuration it is given.

The manifest says what was found in the settings as they were in memory, and the job finds it in the
text that was written of them.  Volumes can be put in without a difference between the two.  What stands
in place of a placeholder need not be read as it was written, and is asked to be here.
-/

namespace HeadJob

open Delimiter (braces)

namespace Document

variable {d d₁ d₂ : Document}

/-! ## Volumes -/

/-- A block that reads back still does if the entries of its settings can be written in place of the old
ones. -/
theorem readsBack_applyVolumes (hd : d.Writable) (h : d.ReadsBack) {arguments : List Text}
    (hkeeps : d.settings.Keeps (d.settings.applyVolumes arguments)) :
    (d.applyVolumes arguments).Writable ∧ (d.applyVolumes arguments).ReadsBack := by
  have hblock : braces.MayBecome (Text.marks d.blockLines)
      (Text.marks (d.applyVolumes arguments).blockLines) := by
    rw [blockLines, blockLines, Text.marks_append, Text.marks_append]
    exact hkeeps.marks.append (Delimiter.mayBecome_refl _ _)
  have hpos : 0 ≤ braces.balance (Text.marks d.blockLines) := h.stays _ (by simp)
  obtain ⟨m, hm⟩ : ∃ m : Nat, (m : Int) = 1 + braces.balance (Text.marks d.blockLines) :=
    ⟨(1 + braces.balance (Text.marks d.blockLines)).toNat, by omega⟩
  have hdepth := hblock 0 m (Delimiter.depthAfter_one_eq_some_iff.2 ⟨h.stays, hm⟩)
  obtain ⟨hstays, hbalance⟩ := Delimiter.depthAfter_one_eq_some_iff.1 hdepth
  refine ⟨⟨hd.name, fun e he => ?_, hd.nested, hd.before, hd.leads, hd.after⟩,
    ⟨fun e he => (hkeeps.readsBack e he).2.2, h.nested, hstays, ?_⟩⟩
  · exact ⟨(hkeeps.readsBack e he).1, (hkeeps.readsBack e he).2.1⟩
  · refine h.closes.imp_left fun hzero => ?_
    omega

/-! ## Placeholders -/

/-- What replaced the placeholders is read from its lines as far as a launch depends on it. -/
structure Settles (d₁ d₂ : Document) : Prop where
  changed : ∀ e ∈ d₂.settings.entries, e ∉ d₁.settings.entries → Text.IsDelivered e.1 e.2
  stays : braces.NeverNegative (Text.marks d₂.blockLines)
  closes : braces.balance (Text.marks d₂.blockLines) = 0 ∨ d₂.after = [] ∨ d₂.after = [[]]

theorem delivers_of_resolve (hd : d₁.Writable) (h : d₁.ReadsBack) (hresolve : d₁.resolve = .ok d₂)
    (hsettles : d₂.settings = d₁.settings ∨ d₁.Settles d₂) : d₂.Delivers := by
  obtain ⟨s, hs, rfl⟩ := resolve_eq_ok_iff.1 hresolve
  have hbreak : ∀ e ∈ s.entries, '\n' ∉ e.2 := by
    intro e he
    obtain ⟨e₁, he₁, -, hvalue⟩ := Settings.exists_of_mem_resolve hs he
    exact Settings.notMem_resolveValue hvalue (fun e' he' => (hd.settings e' he').2.noBreak)
      (hd.settings e₁ he₁).2.noBreak
  have hkey : ∀ e ∈ s.entries, e.1.IsKey := by
    intro e he
    obtain ⟨e₁, he₁, hkey, -⟩ := Settings.exists_of_mem_resolve hs he
    rw [hkey]
    exact (hd.settings e₁ he₁).1
  have hkept : ∀ e ∈ d₁.settings.entries, Text.IsDelivered e.1 e.2 := fun e he =>
    (h.settings e he).isDelivered (hd.settings e he).1 (hd.settings e he).2
  have hlined : ∀ l ∈ ({ d₁ with settings := s } : Document).blockLines, '\n' ∉ l := by
    refine List.forall_mem_append.2 ⟨List.forall_mem_map.2 fun e he => ?_, fun t ht => ?_⟩
    · exact Text.notMem_assignmentLine (hkey e he).noBreak (hbreak e he) (by decide)
    · exact (hd.nested t ht).noBreak
  have hdelivered : ∀ e ∈ s.entries, Text.IsDelivered e.1 e.2 := by
    intro e he
    rcases hsettles with hsame | hsettles
    · exact hkept e (by rw [← hsame]; exact he)
    · by_cases hmem : e ∈ d₁.settings.entries
      · exact hkept e hmem
      · exact hsettles.changed e he hmem
  have hbraces : braces.NeverNegative (Text.marks ({ d₁ with settings := s } : Document).blockLines) ∧
      (braces.balance (Text.marks ({ d₁ with settings := s } : Document).blockLines) = 0 ∨
        d₁.after = [] ∨ d₁.after = [[]]) := by
    rcases hsettles with hsame | hsettles
    · have hsame' : s = d₁.settings := hsame
      rw [hsame']
      exact ⟨h.stays, h.closes⟩
    · exact ⟨hsettles.stays, hsettles.closes⟩
  exact
    { lined := ⟨hd.name, hlined, hd.before, hd.leads, hd.after⟩
      settings := fun e he => ⟨hkey e he, hbreak e he, hdelivered e he⟩
      carried := hd.nested
      nested := h.nested
      stays := hbraces.1
      closes := hbraces.2 }

end Document

/-! ## Launches -/

def Arguments.requested (args : Arguments) : List Volume :=
  (args.volumes.map String.toList).filterMap Volume.ofArgument?

/-- A launch that was prepared with plain volumes, from a configuration whose block has the same settings
and sub-blocks when it is written and read again. -/
structure Prepares (args : Arguments) (around : Surroundings) (d again resolved : Document)
    (spec : LaunchSpec) : Prop where
  read : Document.ofFile Document.clusterBlock (around.fileAt args.configPath) = .ok d
  reload : Document.ofText Document.clusterBlock d.render = .ok again
  settings : again.settings = d.settings
  nested : again.nested = d.nested
  plain : ∀ v ∈ args.requested, v.IsPlain
  resolved : args.document around = .ok resolved
  prepared : prepare args around = .ok spec

/-- What is read from the text that a job is given is what its manifest says. -/
structure LaunchSpec.AgreesWith (spec : LaunchSpec) (resolved d : Document) : Prop where
  volumes : d.volumes = spec.volumes
  configuredNamespace : d.settings.namespace?.map String.ofList = spec.configuredNamespace
  launchDir : resolved.settings.launchDir? ≠ none →
    d.settings.launchDir?.map String.ofList = some spec.launchDir

/-- The text that a job is given can be read, and agrees with its manifest. -/
def LaunchSpec.Agrees (spec : LaunchSpec) (resolved : Document) : Prop :=
  ∃ d, Document.ofText Document.clusterBlock spec.configText.toList = .ok d ∧
    spec.AgreesWith resolved d

variable {args : Arguments} {around : Surroundings} {d again resolved : Document} {spec : LaunchSpec}

theorem agreesWith_of_launchesLike {d' : Document}
    (h : resolved.settings.LaunchesLike d'.settings) :
    (args.spec resolved around).AgreesWith resolved d' where
  volumes := Settings.volumes_of_launchesLike h
  configuredNamespace := congrArg _ (Settings.namespace?_of_launchesLike h)
  launchDir hdir := by
    rw [Settings.launchDir?_of_launchesLike h, Arguments.spec]
    cases hget : resolved.settings.launchDir? with
    | none => exact absurd hget hdir
    | some dir => rfl

/-- A job is given a configuration that agrees with its manifest, if the lines after the block come back
with it, if volumes join a list that closes its quotes, and if what replaced the placeholders is read
as it was written. -/
theorem agrees_of_prepares (h : Prepares args around d again resolved spec)
    (hafter : d.after = again.after ∨ d.after = again.after ++ [[]])
    (htakes : d.settings.TakesVolumes args.requested)
    (hsettles : resolved.settings = d.settings.applyVolumes (args.volumes.map String.toList) ∨
      (d.applyVolumes (args.volumes.map String.toList)).Settles resolved) :
    spec.Agrees resolved := by
  obtain ⟨bytes, content, -, -, htext⟩ := Document.ofFile_eq_ok_iff.1 h.read
  have hname : d.name = Document.clusterBlock := Document.name_of_ofText htext
  have hd : d.Writable :=
    Document.writable_of_ofText Document.isKeyChar_of_mem_clusterBlock htext (.inl (by decide))
  have hreload := h.reload
  rw [← hname] at hreload
  have hreads := Document.readsBack_of_reload hd hreload h.settings h.nested hafter
  -- the volumes
  have hsettings : d.settings.ReadsBack := fun e he =>
    ⟨(hd.settings e he).1, (hd.settings e he).2, hreads.settings e he⟩
  have hkeeps : d.settings.Keeps (d.settings.applyVolumes (args.volumes.map String.toList)) :=
    Settings.keeps_addVolumes hsettings h.plain htakes
  obtain ⟨hd₁, hreads₁⟩ := Document.readsBack_applyVolumes hd hreads hkeeps
  -- the placeholders
  obtain ⟨d₀, hd₀, hresolve⟩ := Arguments.document_eq_ok_iff.1 h.resolved
  rw [h.read] at hd₀
  cases hd₀
  have hdelivers := Document.delivers_of_resolve hd₁ hreads₁ hresolve hsettles
  obtain ⟨d', hd', hlike⟩ := Document.exists_ofText_of_delivers hdelivers
  obtain ⟨s, -, hresolved⟩ := Document.resolve_eq_ok_iff.1 hresolve
  obtain ⟨resolved', hresolved', rfl⟩ := prepare_eq_ok_iff.1 h.prepared
  rw [h.resolved] at hresolved'
  cases hresolved'
  have hname₂ : resolved.name = Document.clusterBlock := by
    rw [hresolved]
    exact hname
  refine ⟨d', ?_, agreesWith_of_launchesLike hlike⟩
  rw [← hd', hname₂]
  exact congrArg _ String.toList_ofList

/-! ## Launches with a given configuration -/

variable {text : String} {volumes : List String}

/-- Any configuration and volumes are those of some launch. -/
theorem exists_prepares (volumes : List String)
    (hread : Document.ofText Document.clusterBlock text.toList = .ok d)
    (hreload : Document.ofText Document.clusterBlock d.render = .ok again)
    (hsettings : again.settings = d.settings) (hnested : again.nested = d.nested)
    (hplain : ∀ v ∈ (volumes.map String.toList).filterMap Volume.ofArgument?, v.IsPlain)
    (hresolve : (d.applyVolumes (volumes.map String.toList)).resolve = .ok resolved) :
    ∃ args around, args.volumes = volumes ∧
      Prepares args around d again resolved (args.spec resolved around) := by
  obtain ⟨args, around, rfl, hfile⟩ := exists_ofFile text volumes
  rw [hread] at hfile
  have hdocument : args.document around = .ok resolved :=
    Arguments.document_eq_ok_iff.2 ⟨d, hfile, hresolve⟩
  exact ⟨args, around, rfl, hfile, hreload, hsettings, hnested, hplain, hdocument,
    prepare_eq_ok_iff.2 ⟨resolved, hdocument, rfl⟩⟩

theorem agrees_of_prepares_of_placeholder :
    ∃ args around d again resolved spec, Prepares args around d again resolved spec ∧
      (d.after = again.after ∨ d.after = again.after ++ [[]]) ∧
      d.settings.TakesVolumes args.requested ∧
      (resolved.settings = d.settings.applyVolumes (args.volumes.map String.toList) ∨
        (d.applyVolumes (args.volumes.map String.toList)).Settles resolved) ∧
      spec.Agrees resolved := by
  let block (entries : List (Text × Text)) : Document :=
    ⟨"k8s".toList, .ofList (("base".toList, "'/work'".toList) :: entries), [], [], [], []⟩
  let volumes : List (Text × Text) :=
    [("storageClaimName".toList, "'w'".toList), ("storageMountPath".toList, "'/w'".toList),
      ("pod".toList, "[[volumeClaim:'c', mountPath:'/q']]".toList)]
  obtain ⟨d, hd⟩ : ∃ d, d = block [("launchDir".toList, "$\x7bk8s.base\x7d/x".toList)] := ⟨_, rfl⟩
  obtain ⟨d₁, hd₁⟩ : ∃ d₁, d₁ = block (("launchDir".toList, "$\x7bk8s.base\x7d/x".toList) :: volumes) :=
    ⟨_, rfl⟩
  obtain ⟨resolved, hresolved⟩ : ∃ resolved, resolved =
      block (("launchDir".toList, "/work/x".toList) :: volumes) := ⟨_, rfl⟩
  have hread : Document.ofText Document.clusterBlock
      "k8s \x7b\n  base = '/work'\n  launchDir = $\x7bk8s.base\x7d/x\n\x7d\n".toList = .ok d := by
    rw [hd]
    decide +kernel
  have hreload : Document.ofText Document.clusterBlock d.render = .ok d := by
    rw [hd]
    decide +kernel
  have hplain : ∀ v ∈ (["w:/w", "c:/q"].map String.toList).filterMap Volume.ofArgument?,
      v.IsPlain := by
    decide +kernel
  have happly : d.applyVolumes (["w:/w", "c:/q"].map String.toList) = d₁ := by
    rw [hd, hd₁]
    decide +kernel
  have hresolve : d₁.resolve = .ok resolved := by
    rw [hd₁, hresolved]
    decide +kernel
  have htakes : d.settings.TakesVolumes
      ((["w:/w", "c:/q"].map String.toList).filterMap Volume.ofArgument?) := by
    rw [hd]
    decide +kernel
  have hchanged : ∀ e ∈ resolved.settings.entries, e ∉ d₁.settings.entries →
      Text.IsDelivered e.1 e.2 := by
    rw [hd₁, hresolved]
    decide +kernel
  have hstays : braces.NeverNegative (Text.marks resolved.blockLines) := by
    rw [hresolved]
    decide +kernel
  have hcloses : braces.balance (Text.marks resolved.blockLines) = 0 := by
    rw [hresolved]
    decide +kernel
  obtain ⟨args, around, hvolumes, h⟩ := exists_prepares ["w:/w", "c:/q"] hread hreload rfl rfl
    hplain (by rw [happly, hresolve])
  have htakes' : d.settings.TakesVolumes args.requested := by
    rw [Arguments.requested, hvolumes]
    exact htakes
  have hsettles : (d.applyVolumes (args.volumes.map String.toList)).Settles resolved := by
    rw [hvolumes, happly]
    exact ⟨hchanged, hstays, .inl hcloses⟩
  exact ⟨args, around, d, d, resolved, _, h, .inl rfl, htakes', .inr hsettles,
    agrees_of_prepares h (.inl rfl) htakes' (.inr hsettles)⟩

theorem not_agrees {found : Document}
    (hfound : Document.ofText Document.clusterBlock resolved.render = .ok found)
    (hdiffers : found.volumes ≠ resolved.volumes ∨
      found.settings.namespace? ≠ resolved.settings.namespace?) :
    ¬(args.spec resolved around).Agrees resolved := by
  rintro ⟨d', hd', hagrees⟩
  have htext : (args.spec resolved around).configText.toList = resolved.render := String.toList_ofList
  rw [htext, hfound] at hd'
  cases hd'
  rcases hdiffers with hvolumes | hnamespace
  · exact hvolumes hagrees.volumes
  · refine hnamespace (Option.map_injective (fun _ _ => String.ofList_injective) ?_)
    exact hagrees.configuredNamespace

/-- Without placeholders it depends on the volumes alone what is found. -/
theorem exists_not_agrees {found : Document}
    (hread : Document.ofText Document.clusterBlock text.toList = .ok d)
    (hreload : Document.ofText Document.clusterBlock d.render = .ok again)
    (hsettings : again.settings = d.settings) (hnested : again.nested = d.nested)
    (hplain : ∀ v ∈ (volumes.map String.toList).filterMap Volume.ofArgument?, v.IsPlain)
    (hresolved : resolved = d.applyVolumes (volumes.map String.toList))
    (hdollar : ∀ e ∈ resolved.settings.entries, '$' ∉ e.2)
    (hfound : Document.ofText Document.clusterBlock resolved.render = .ok found)
    (hdiffers : found.volumes ≠ resolved.volumes) :
    ∃ args around spec, args.volumes = volumes ∧ Prepares args around d again resolved spec ∧
      resolved.settings = d.settings.applyVolumes (args.volumes.map String.toList) ∧
      ¬spec.Agrees resolved := by
  have hresolve : (d.applyVolumes (volumes.map String.toList)).resolve = .ok resolved := by
    rw [← hresolved]
    exact Document.resolve_eq_ok_iff.2 ⟨_, Settings.resolve_of_notMem hdollar, rfl⟩
  obtain ⟨args, around, hvolumes, h⟩ :=
    exists_prepares volumes hread hreload hsettings hnested hplain hresolve
  refine ⟨args, around, _, hvolumes, h, ?_, not_agrees hfound (.inl hdiffers)⟩
  rw [hvolumes, hresolved, Document.applyVolumes]

/-- Text in quotes may be a comment without them, and then a placeholder for it is cut short. -/
theorem not_agrees_of_comment :
    ∃ args around d again resolved spec, Prepares args around d again resolved spec ∧
      d.after = again.after ∧ d.settings.TakesVolumes args.requested ∧ ¬spec.Agrees resolved := by
  let block (home : String) : Document :=
    ⟨"k8s".toList, .ofList [("a".toList, "'x // y'".toList), ("namespace".toList, home.toList)],
      [], [], [], []⟩
  have hread : Document.ofText Document.clusterBlock
      "k8s \x7b\n  a = 'x // y'\n  namespace = $\x7bk8s.a\x7d\n\x7d\n".toList =
        .ok (block "$\x7bk8s.a\x7d") := rfl
  have hreload : Document.ofText Document.clusterBlock (block "$\x7bk8s.a\x7d").render =
      .ok (block "$\x7bk8s.a\x7d") := rfl
  have hresolve : (block "$\x7bk8s.a\x7d").resolve = .ok (block "x // y") := rfl
  have hfound : Document.ofText Document.clusterBlock (block "x // y").render = .ok (block "x") := rfl
  have hdiffers : (block "x").settings.namespace? ≠ (block "x // y").settings.namespace? := by
    decide +kernel
  obtain ⟨args, around, hvolumes, h⟩ := exists_prepares [] hread hreload rfl rfl
    (fun v hv => by cases hv) hresolve
  refine ⟨args, around, _, _, _, _, h, rfl, .inl ?_, not_agrees hfound (.inr hdiffers)⟩
  rw [Arguments.requested, hvolumes]
  exact fun v hv => by cases hv

/-- A volume that joins a list with an open quote stands in the quote, with the brackets after it. -/
theorem not_agrees_of_open_quote :
    ∃ args around d again resolved spec, Prepares args around d again resolved spec ∧
      d.after = again.after ∧
      resolved.settings = d.settings.applyVolumes (args.volumes.map String.toList) ∧
      ¬spec.Agrees resolved := by
  obtain ⟨d, hd⟩ : ∃ d : Document, d =
      ⟨"k8s".toList, .ofList [("pod".toList, "\"x".toList)], [], [], [], []⟩ := ⟨_, rfl⟩
  have hread : Document.ofText Document.clusterBlock "k8s \x7b\n  pod = \"x\n\x7d\n".toList =
      .ok d := by
    rw [hd]
    rfl
  have hreload : Document.ofText Document.clusterBlock d.render = .ok d := by
    rw [hd]
    rfl
  have hplain : ∀ v ∈ (["w:/w", "c:/p"].map String.toList).filterMap Volume.ofArgument?,
      v.IsPlain := by
    decide +kernel
  obtain ⟨resolved, hresolved⟩ : ∃ resolved,
      resolved = d.applyVolumes (["w:/w", "c:/p"].map String.toList) := ⟨_, rfl⟩
  have hdollar : ∀ e ∈ resolved.settings.entries, '$' ∉ e.2 := by
    rw [hresolved, hd]
    decide +kernel
  obtain ⟨found, hfound, hdiffers⟩ : ∃ found,
      Document.ofText Document.clusterBlock resolved.render = .ok found ∧
        found.volumes ≠ resolved.volumes := by
    rw [hresolved, hd]
    exact ⟨_, rfl, by decide +kernel⟩
  obtain ⟨args, around, spec, -, h, hsame, hagrees⟩ :=
    exists_not_agrees hread hreload rfl rfl hplain hresolved hdollar hfound hdiffers
  exact ⟨args, around, d, d, resolved, spec, h, rfl, hsame, hagrees⟩

/-- Lines after a block may be taken for a part of it, and hide the volumes that are put into it. -/
theorem not_agrees_of_lines_after :
    ∃ args around d again resolved spec, Prepares args around d again resolved spec ∧
      d.settings.TakesVolumes args.requested ∧
      resolved.settings = d.settings.applyVolumes (args.volumes.map String.toList) ∧
      ¬spec.Agrees resolved := by
  obtain ⟨d, hd⟩ : ∃ d : Document, d =
      { name := "k8s".toList
        settings := .ofList [("storageClaimName".toList, "'old'".toList),
          ("a".toList, "[ \x7b ]".toList)]
        nested := []
        before := []
        after := ["storageClaimName = 'old'".toList, "a = [".toList, "\x7b ]".toList,
          "\x7d".toList, "\x7d".toList]
        warnings := [.notAssignment 5 ['}']] } := ⟨_, rfl⟩
  have hread : Document.ofText Document.clusterBlock
      ("k8s \x7b\n  storageClaimName = 'old'\n  a = [\n\x7b ]\n\x7d\n\x7d\n" ++
        "storageClaimName = 'old'\na = [\n\x7b ]\n\x7d\n\x7d\n").toList = .ok d := by
    rw [hd]
    rfl
  obtain ⟨again, hreload, hsettings, hnested⟩ : ∃ again,
      Document.ofText Document.clusterBlock d.render = .ok again ∧
        again.settings = d.settings ∧ again.nested = d.nested := by
    rw [hd]
    exact ⟨_, rfl, by decide +kernel, by decide +kernel⟩
  have hplain : ∀ v ∈ (["w:/w"].map String.toList).filterMap Volume.ofArgument?, v.IsPlain := by
    decide +kernel
  obtain ⟨resolved, hresolved⟩ : ∃ resolved,
      resolved = d.applyVolumes (["w:/w"].map String.toList) := ⟨_, rfl⟩
  have hdollar : ∀ e ∈ resolved.settings.entries, '$' ∉ e.2 := by
    rw [hresolved, hd]
    decide +kernel
  obtain ⟨found, hfound, hdiffers⟩ : ∃ found,
      Document.ofText Document.clusterBlock resolved.render = .ok found ∧
        found.volumes ≠ resolved.volumes := by
    rw [hresolved, hd]
    exact ⟨_, rfl, by decide +kernel⟩
  obtain ⟨args, around, spec, hvolumes, h, hsame, hagrees⟩ :=
    exists_not_agrees hread hreload hsettings hnested hplain hresolved hdollar hfound hdiffers
  refine ⟨args, around, d, again, resolved, spec, h, .inl ?_, hsame, hagrees⟩
  rw [Arguments.requested, hvolumes]
  exact fun v hv => by cases hv

/-- None of the three conditions can be left out. -/
theorem not_agrees_without_each :
    (∃ args around d again resolved spec, Prepares args around d again resolved spec ∧
      d.after = again.after ∧ d.settings.TakesVolumes args.requested ∧ ¬spec.Agrees resolved) ∧
    (∃ args around d again resolved spec, Prepares args around d again resolved spec ∧
      d.after = again.after ∧
      resolved.settings = d.settings.applyVolumes (args.volumes.map String.toList) ∧
      ¬spec.Agrees resolved) ∧
    ∃ args around d again resolved spec, Prepares args around d again resolved spec ∧
      d.settings.TakesVolumes args.requested ∧
      resolved.settings = d.settings.applyVolumes (args.volumes.map String.toList) ∧
      ¬spec.Agrees resolved :=
  ⟨not_agrees_of_comment, not_agrees_of_open_quote, not_agrees_of_lines_after⟩

end HeadJob
