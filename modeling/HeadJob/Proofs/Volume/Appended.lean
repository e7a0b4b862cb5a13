import HeadJob.Config.Document
import HeadJob.Proofs.Volume.Applied
import HeadJob.Proofs.Volume.Entry

/-!
What volumes add to settings whose list under `pod` is flat.

The list is read and written again for every volume.  Each time it comes back as the old entries and one
entry for each volume that was added, and these entries hold those volumes alone.
-/

namespace HeadJob

namespace OrderedMap

variable {κ α : Type} [DecidableEq κ]

theorem insert_insert (m : OrderedMap κ α) (k : κ) (a b : α) :
    (m.insert k a).insert k b = m.insert k b := by
  have hset : ∀ es : List (κ × α), set k b (set k a es) = set k b es := by
    intro es
    induction es with
    | nil => simp [set]
    | cons e es ih =>
      obtain ⟨k', a'⟩ := e
      by_cases hk : k' = k
      · simp [set, hk]
      · simp [set, hk, ih]
  exact ext (hset m.entries)

end OrderedMap

namespace PodList

variable {l : PodList} {v w : Volume} {vs : List Volume}

/-- The volumes that the list does not hold, each once, where it comes first. -/
def missing (l : PodList) (vs : List Volume) : List Volume := (vs.filter fun v => !l.holds v).eraseDups

theorem mem_missing_iff : v ∈ l.missing vs ↔ v ∈ vs ∧ l.holds v = false := by
  rw [missing, List.mem_eraseDups, List.mem_filter, Bool.not_eq_true']

theorem missing_concat (l : PodList) (vs : List Volume) (v : Volume) :
    l.missing (vs ++ [v]) =
      if l.holds v = true ∨ v ∈ l.missing vs then l.missing vs else l.missing vs ++ [v] := by
  rw [missing, List.filter_append]
  cases hv : l.holds v with
  | true =>
    rw [List.filter_cons_of_neg (by simp [hv]), List.filter_nil, List.append_nil, if_pos (.inl rfl),
      missing]
  | false =>
    rw [List.filter_cons_of_pos (by simp [hv]), List.filter_nil, eraseDups_concat]
    simp only [missing, List.mem_eraseDups, Bool.false_eq_true, false_or]

theorem isAllBlank_entry (v : Volume) : Text.isAllBlank v.entry = false := by
  rw [Volume.entry_eq, Text.isAllBlank_append, show Text.isAllBlank "volumeClaim".toList = false by decide,
    Bool.false_and]

/-- A flat list that entries of volumes are added to is read back as it was written. -/
theorem IsFlat.parse_toLiteral_append {literal : Text} (h : IsFlat literal)
    (hvs : ∀ v ∈ vs, v.IsClear) :
    parse (toLiteral ⟨(parse literal).entries ++ vs.map Volume.entry⟩) =
      ⟨(parse literal).entries ++ vs.map Volume.entry⟩ := by
  refine parse_toLiteral (fun e he => ?_) fun e he => ?_
  · rcases List.mem_append.1 he with he | he
    · exact h.isBracketFree he
    · obtain ⟨v, hv, rfl⟩ := List.mem_map.1 he
      exact isBracketFree_entry (hvs v hv).isUnbracketed
  · rcases List.append_eq_singleton_iff.1 he with ⟨-, hentry⟩ | ⟨hold, -⟩
    · obtain ⟨v, -, rfl⟩ := List.map_eq_singleton_iff.1 hentry
      exact isAllBlank_entry v
    · exact isAllBlank_of_entries_parse hold

end PodList

namespace Settings

open PodList (missing toLiteral)

variable {s s' : Settings} {v : Volume} {vs : List Volume}

/-- The entries of the list under `pod`. -/
def pods (s : Settings) : PodList := PodList.parse (s.pod?.getD [])

theorem addPodVolume_eq (s : Settings) (v : Volume) :
    s.addPodVolume v =
      if s.pods.holds v then s else s.insert podKey (toLiteral ⟨s.pods.entries ++ [v.entry]⟩) := by
  rw [addPodVolume, pods]
  split
  · rfl
  · next h => rw [PodList.merge, if_neg h]

theorem pods_insert (s : Settings) (literal : Text) :
    pods (s.insert podKey literal) = PodList.parse literal := by
  rw [pods, pod?, OrderedMap.get?_insert, if_pos rfl, Option.getD_some]

theorem get?_foldl_addPodVolume {key : Text} (hkey : key ≠ podKey) (s : Settings)
    (vs : List Volume) : (vs.foldl addPodVolume s).get? key = s.get? key := by
  induction vs generalizing s with
  | nil => rfl
  | cons v vs ih => rw [List.foldl_cons, ih, get?_addPodVolume hkey]

/-- What is under `pod` when volumes were put in one after another. -/
theorem foldl_addPodVolume (hflat : PodList.IsFlat (s.pod?.getD []))
    (hvs : ∀ v ∈ vs, v.IsClear ∧ v.IsGiven) :
    vs.foldl addPodVolume s =
        (if s.pods.missing vs = [] then s
          else s.insert podKey
            (toLiteral ⟨s.pods.entries ++ (s.pods.missing vs).map Volume.entry⟩)) ∧
      (vs.foldl addPodVolume s).pods =
        ⟨s.pods.entries ++ (s.pods.missing vs).map Volume.entry⟩ := by
  -- the induction is on the last volume, since those before it say what the list holds by then
  induction vs using List.reverseRecOn with
  | nil => simp [missing]
  | append_singleton vs v ih =>
    obtain ⟨hsettings, hpods⟩ := ih fun w hw => hvs w (List.mem_append_left [v] hw)
    obtain ⟨hclear, hgiven⟩ := hvs v (by simp)
    have hmissing : ∀ w ∈ s.pods.missing vs, w.IsClear ∧ w.IsGiven := fun w hw =>
      hvs w (List.mem_append_left [v] (PodList.mem_missing_iff.1 hw).1)
    have hholds := PodList.holds_append_entries hclear s.pods hmissing
    rw [← hpods] at hholds
    rw [List.foldl_concat, PodList.missing_concat, addPodVolume_eq]
    by_cases h : s.pods.holds v = true ∨ v ∈ s.pods.missing vs
    · rw [if_pos h, if_pos (hholds.2 h)]
      exact ⟨hsettings, hpods⟩
    · have hadded : ∀ w ∈ s.pods.missing vs ++ [v], w.IsClear := fun w hw =>
        (List.mem_append.1 hw).elim (fun hw => (hmissing w hw).1)
          fun hw => List.mem_singleton.1 hw ▸ hclear
      have hread := hflat.parse_toLiteral_append hadded
      have hentries : s.pods.entries ++ (s.pods.missing vs).map Volume.entry ++ [v.entry] =
          s.pods.entries ++ (s.pods.missing vs ++ [v]).map Volume.entry := by
        rw [List.map_append, List.append_assoc]
        rfl
      rw [if_neg h, if_neg fun hheld => h (hholds.1 hheld), hpods, hentries, pods_insert]
      rw [if_neg (by simp), hsettings]
      refine ⟨?_, hread⟩
      split
      · rfl
      · exact OrderedMap.insert_insert _ _ _ _

/-! ## All volumes -/

/-- What settings gain when one volume becomes the work storage and others join the list under `pod`.
Those that the list holds already are left out, and so are repetitions. -/
structure Gains (s s' : Settings) (storage : Volume) (others : List Volume) : Prop where
  claim : s'.get? storageClaimKey = some ('\'' :: storage.claim ++ ['\''])
  path : s'.get? storagePathKey = some ('\'' :: storage.path ++ ['\''])
  pods : s'.pods.entries = s.pods.entries ++ (s.pods.missing others).map Volume.entry
  pod?_eq : s.pods.missing others = [] → s'.pod? = s.pod?
  get?_eq : ∀ key, key ∉ [storageClaimKey, storagePathKey, podKey] → s'.get? key = s.get? key
  keys : s'.keys = s.keys ++
    ([storageClaimKey, storagePathKey] ++
      if s.pods.missing others = [] then [] else [podKey]).filter (· ∉ s.keys)

/-- A key that is set comes behind keys that are new as well, if it is new. -/
theorem keys_insert_append {ks new : List Text} {k : Text} (h : s.keys = ks ++ new.filter (· ∉ ks))
    (hk : k ∉ new) (value : Text) :
    (s.insert k value).keys = ks ++ (new ++ [k]).filter (· ∉ ks) := by
  rw [OrderedMap.keys_insert, h, List.filter_append]
  by_cases hmem : k ∈ ks
  · rw [if_pos (List.mem_append_left _ hmem), List.filter_cons_of_neg (by simpa using hmem),
      List.filter_nil, List.append_nil]
  · have hnot : k ∉ ks ++ new.filter (· ∉ ks) := by
      rw [List.mem_append, not_or]
      exact ⟨hmem, fun h => hk (List.mem_of_mem_filter h)⟩
    rw [if_neg hnot, List.filter_cons_of_pos (by simpa using hmem), List.filter_nil,
      List.append_assoc]

theorem pods_setStorage (s : Settings) (v : Volume) : (s.setStorage v).pods = s.pods := by
  rw [pods, pod?_setStorage, pods]

theorem claim_addVolumes (s : Settings) (v : Volume) (vs : List Volume) :
    (s.addVolumes (v :: vs)).get? storageClaimKey = some ('\'' :: v.claim ++ ['\'']) := by
  rw [addVolumes, get?_foldl_addPodVolume (by decide), claim_setStorage]

theorem path_addVolumes (s : Settings) (v : Volume) (vs : List Volume) :
    (s.addVolumes (v :: vs)).get? storagePathKey = some ('\'' :: v.path ++ ['\'']) := by
  rw [addVolumes, get?_foldl_addPodVolume (by decide), path_setStorage]

theorem keys_setStorage (s : Settings) (v : Volume) :
    (s.setStorage v).keys = s.keys ++ [storageClaimKey, storagePathKey].filter (· ∉ s.keys) := by
  have hstart : s.keys = s.keys ++ ([] : List Text).filter (· ∉ s.keys) := (List.append_nil _).symm
  exact keys_insert_append (keys_insert_append hstart List.not_mem_nil _) (by decide) _

theorem gains_addVolumes (hflat : PodList.IsFlat (s.pod?.getD []))
    (hvs : ∀ w ∈ vs, w.IsClear ∧ w.IsGiven) : s.Gains (s.addVolumes (v :: vs)) v vs := by
  obtain ⟨hsettings, hpods⟩ := foldl_addPodVolume (s := s.setStorage v)
    (by rw [pod?_setStorage]; exact hflat) hvs
  rw [pods_setStorage] at hsettings hpods
  refine ⟨claim_addVolumes s v vs, path_addVolumes s v vs, ?_, fun hnone => ?_, fun key hkey => ?_, ?_⟩
  · rw [addVolumes, hpods]
  · rw [addVolumes, hsettings, if_pos hnone, pod?_setStorage]
  · simp only [List.mem_cons, List.not_mem_nil, or_false, not_or] at hkey
    rw [addVolumes, get?_foldl_addPodVolume hkey.2.2, setStorage, OrderedMap.get?_insert, if_neg hkey.2.1,
      OrderedMap.get?_insert, if_neg hkey.1]
  · rw [addVolumes, hsettings]
    split
    · rw [keys_setStorage, List.append_nil]
    · exact keys_insert_append (keys_setStorage s v) (by decide) _

end Settings

/-- Volumes on the command line are added to a flat list, and nothing else is touched. -/
theorem Document.gains_applyVolumes (d : Document) {arguments : List Text}
    (hflat : PodList.IsFlat (d.settings.pod?.getD []))
    (hclear : ∀ v ∈ arguments.filterMap Volume.ofArgument?, v.IsClear) :
    (arguments.filterMap Volume.ofArgument? = [] →
        (d.applyVolumes arguments).settings = d.settings) ∧
      (∀ storage others, arguments.filterMap Volume.ofArgument? = storage :: others →
        d.settings.Gains (d.applyVolumes arguments).settings storage others) ∧
      (d.applyVolumes arguments).warnings =
        d.warnings ++ (arguments.filter fun a => (Volume.ofArgument? a).isNone).map .invalidVolume := by
  refine ⟨fun hnone => ?_, fun storage others hsome => ?_, rfl⟩
  · rw [applyVolumes, Settings.applyVolumes, hnone]
    rfl
  · rw [applyVolumes, Settings.applyVolumes, hsome]
    refine Settings.gains_addVolumes hflat fun w hw => ?_
    have hmem : w ∈ arguments.filterMap Volume.ofArgument? := by
      rw [hsome]
      exact List.mem_cons_of_mem storage hw
    obtain ⟨a, -, ha⟩ := List.mem_filterMap.1 hmem
    exact ⟨hclear w hmem, Volume.isGiven_of_ofArgument? ha⟩

theorem Document.gains_applyVolumes_of_one_held :
    ∃ (d : Document) (arguments : List Text) (storage : Volume) (others : List Volume),
      PodList.IsFlat (d.settings.pod?.getD []) ∧
      (∀ v ∈ arguments.filterMap Volume.ofArgument?, v.IsClear) ∧
      arguments.filterMap Volume.ofArgument? = storage :: others ∧
      (d.applyVolumes arguments).settings.pod? = some
        "[[env:'A', value:'b'],[volumeClaim:'c', mountPath:'/p'],[volumeClaim:'x', mountPath:'/x']]".toList ∧
      d.settings.Gains (d.applyVolumes arguments).settings storage others := by
  let pods := "[ [env:'A', value:'b'], [volumeClaim:'c', mountPath:'/p'] ]".toList
  let d : Document := ⟨"k8s".toList, .ofList [("pod".toList, pods)], [], [], [], []⟩
  let arguments := ["w:/w".toList, "c:/p".toList, "none".toList, "x:/x".toList, "x:/x".toList]
  have hlayout : PodList.IsLayout
      ["env:'A', value:'b'".toList, "volumeClaim:'c', mountPath:'/p'".toList] pods :=
    .list [] [' '] [' '] [] rfl rfl rfl rfl (.cons _ [] [' '] rfl rfl (.single _))
  have hflat : PodList.IsFlat (d.settings.pod?.getD []) := .list hlayout (by decide)
  have hclear : ∀ v ∈ arguments.filterMap Volume.ofArgument?, v.IsClear := by decide
  exact ⟨d, arguments, _, _, hflat, hclear, rfl, by decide +kernel,
    (d.gains_applyVolumes hflat hclear).2.1 _ _ rfl⟩

end HeadJob
