import HeadJob.Proofs.Config.Growth

/-!
What the written line of an entry can do to the reader of a body.

A line that is not read as its entry may still do no harm: it may assign something else to its own
key, or be passed over, as long as it leaves nothing open for the lines after it.  The keys that a
launch looks at have more to keep, and their values must be read as they are.
-/

namespace HeadJob

open Delimiter (brackets braces)

namespace Settings

/-- The keys that a launch looks at in the configuration it delivers. -/
def launchKeys : List Text :=
  [namespaceKey, launchDirKey, podKey, storageClaimKey, storagePathKey]

end Settings

namespace Text

/-- A reader that meets the line outside any value and sub-block is outside of them after it. -/
def LeavesIdle (t : Text) : Prop := (BodyReader.feed {} 0 t).reading = .idle

instance (t : Text) : Decidable (LeavesIdle t) := inferInstanceAs (Decidable (_ = _))

/-- The line of the entry is read as far as a launch depends on it. -/
structure IsDelivered (key value : Text) : Prop where
  trim : key ∈ Settings.launchKeys → trim value = value
  readsBack : key ∈ Settings.launchKeys → ReadsBack key value
  idle : key ∉ Settings.launchKeys → (assignmentLine key value).seen.LeavesIdle

instance (key value : Text) : Decidable (IsDelivered key value) :=
  decidable_of_iff
    ((key ∈ Settings.launchKeys → trim value = value) ∧
      (key ∈ Settings.launchKeys → ReadsBack key value) ∧
      (key ∉ Settings.launchKeys → (assignmentLine key value).seen.LeavesIdle))
    ⟨fun ⟨h₁, h₂, h₃⟩ => ⟨h₁, h₂, h₃⟩, fun ⟨h₁, h₂, h₃⟩ => ⟨h₁, h₂, h₃⟩⟩

variable {key value : Text}

theorem ReadsBack.isDelivered (h : ReadsBack key value) (hk : key.IsKey) (hv : value.IsValue) :
    IsDelivered key value where
  trim _ := hv.trim
  readsBack _ := h
  idle _ := by
    rw [h.seen hk hv]
    show (BodyReader.feed {} 0 (assignmentLine key value)).reading = .idle
    rw [BodyReader.feed_assignmentLine rfl hk hv h]
    exact BodyReader.reading_assign _ _ _ _

/-- A line assigns to the key that it was written for, if to any. -/
theorem eq_key_of_assignment? (hk : key.IsKey) {k v : Text}
    (h : (assignmentLine key value).seen.assignment? = some (k, v)) : k = key := by
  obtain ⟨-, -, htrim, -, hequals, b, c, hb, -, hline⟩ :=
    exists_blanks_of_assignment? (trim_trim _) h
  obtain ⟨rest, hrest⟩ := Scan.beforeComment_isPrefix Scan.start (assignmentLine key value)
  obtain ⟨x, y, hx, -, hstrip⟩ := exists_blanks_trim_blanks (assignmentLine key value).stripComment
  have hblank : ∀ {b : Text}, isAllBlank b = true → '=' ∉ b := by
    intro b hb hmem
    exact absurd (List.all_eq_true.1 hb _ hmem) (by decide)
  have hsplit : (x ++ k ++ b) ++ '=' :: (c ++ v ++ y ++ rest) =
      (key ++ [' ']) ++ '=' :: (' ' :: value) := by
    have hall : x ++ (assignmentLine key value).stripComment.trim ++ y ++ rest =
        assignmentLine key value := by
      rw [← hstrip]
      exact hrest
    rw [show (assignmentLine key value).stripComment.trim = _ from hline] at hall
    simpa [assignmentLine] using hall
  have hfront : x ++ k ++ b = key ++ [' '] := by
    refine eq_of_append_cons ?_ ?_ hsplit
    · simp only [List.mem_append, not_or]
      exact ⟨⟨hblank hx, hequals⟩, hblank hb⟩
    · simp only [List.mem_append, not_or]
      exact ⟨hk.equals, by decide⟩
  have hends := trim_append_blanks hx hb k
  rw [hfront, htrim] at hends
  have hkey := trim_append_blanks (a := []) (b := [' ']) rfl (by decide) key
  rw [List.nil_append, hk.trim] at hkey
  rw [← hends, hkey]

end Text

namespace BodyReader

variable {r : BodyReader} {key value : Text}

/-- What comes after an idle reader's line does not depend on what was read before. -/
theorem reading_feed_of_leavesIdle (hr : r.reading = .idle) {t : Text} (h : t.LeavesIdle)
    (line : Nat) : (r.feed line t).reading = .idle := by
  unfold Text.LeavesIdle at h
  unfold feed at h ⊢
  split
  · exact hr
  · next hne =>
    rw [if_neg hne] at h
    rw [hr]
    dsimp only at h ⊢
    unfold start at h ⊢
    split
    · next hopens => rwa [if_pos hopens] at h
    · next hopens =>
      rw [if_neg hopens] at h
      cases hassign : t.assignment? with
      | none => rwa [hassign] at h
      | some kv =>
        obtain ⟨k, v⟩ := kv
        rw [hassign] at h
        dsimp only at h ⊢
        rw [startValue, startValue, startValue] at h ⊢
        dsimp only at h ⊢
        split at h
        · cases h
        · next hopen =>
          rw [if_neg hopen]
          split
          · exact hr
          · next hclose =>
            rw [if_neg hclose] at h
            split at h
            · cases h
            · next hopen' =>
              rw [if_neg hopen']
              split
              · exact hr
              · rw [reading_assign]

/-- The line of an entry sets nothing but the key of the entry. -/
theorem settings_feed_seen (hr : r.reading = .idle) (hk : key.IsKey) (line : Nat) :
    (r.feed line (Text.assignmentLine key value).seen).settings = r.settings ∨
      ∃ v, (r.feed line (Text.assignmentLine key value).seen).settings = r.settings.insert key v := by
  have hstep := step_feed line (Text.assignmentLine key value).seen r
  generalize r.feed line (Text.assignmentLine key value).seen = r' at hstep
  cases hstep with
  | assign k v _ _ _ hassign =>
    right
    rw [settings_assign, Text.eq_key_of_assignment? hk hassign]
    exact ⟨v, rfl⟩
  | close v _ hv =>
    rw [hr] at hv
    cases hv
  | _ => exact .inl rfl

theorem feed_launchKey_nil (hr : r.reading = .idle) (hkey : key ∈ Settings.launchKeys) (line : Nat) :
    (r.feed line (Text.assignmentLine key []).seen).reading = .idle ∧
      (r.feed line (Text.assignmentLine key []).seen).settings = r.settings := by
  have hline : ∀ key ∈ Settings.launchKeys, (Text.assignmentLine key []).seen ≠ [] ∧
      (Text.assignmentLine key []).seen.opensSubBlock = false ∧
      (Text.assignmentLine key []).seen.assignment? = none ∧
      braces.netChange (Text.assignmentLine key []).seen = 0 := by
    simp only [Settings.launchKeys, List.forall_mem_cons]
    decide
  obtain ⟨hne, hopens, hassign, hbraces⟩ := hline key hkey
  have hfeed : r.feed line (Text.assignmentLine key []).seen =
      { r.warn (.notAssignment line (Text.assignmentLine key []).seen) with reading := .idle } := by
    rw [feed_of_idle hr hne]
    simp only [start, hopens, hassign, hbraces]
    rfl
  rw [hfeed]
  exact ⟨rfl, rfl⟩

theorem feed_delivered (hr : r.reading = .idle) (hk : key.IsKey) (hn : '\n' ∉ value)
    (h : Text.IsDelivered key value) (line : Nat) :
    (r.feed line (Text.assignmentLine key value).seen).reading = .idle ∧
      ∀ q ∈ Settings.launchKeys,
        (r.feed line (Text.assignmentLine key value).seen).settings.get? q =
          if q = key ∧ value ≠ [] then some value else r.settings.get? q := by
  by_cases hkey : key ∈ Settings.launchKeys
  · by_cases hvalue : value = []
    · subst hvalue
      obtain ⟨hreading, hsettings⟩ := feed_launchKey_nil hr hkey line
      refine ⟨hreading, fun q _ => ?_⟩
      rw [hsettings, if_neg fun h => h.2 rfl]
    · have hv : value.IsValue := ⟨hvalue, h.trim hkey, hn⟩
      have hreads := h.readsBack hkey
      rw [hreads.seen hk hv, feed_assignmentLine hr hk hv hreads]
      refine ⟨reading_assign _ _ _ _, fun q _ => ?_⟩
      rw [settings_assign, OrderedMap.get?_insert]
      simp [hvalue]
  · refine ⟨reading_feed_of_leavesIdle hr (h.idle hkey) line, fun q hq => ?_⟩
    have hne : q ≠ key := fun heq => hkey (heq ▸ hq)
    rw [if_neg fun h => hne h.1]
    rcases settings_feed_seen hr hk line with hsame | ⟨v, hset⟩
    · rw [hsame]
    · rw [hset, OrderedMap.get?_insert, if_neg hne]

/-- Entries are read from their lines as far as a launch depends on them.  An empty value is as good
as none. -/
theorem feedAll_delivered {es : List (Text × Text)} (hr : r.reading = .idle)
    (hes : ∀ e ∈ es, e.1.IsKey ∧ '\n' ∉ e.2 ∧ Text.IsDelivered e.1 e.2)
    (hnodup : (es.map Prod.fst).Nodup) (line : Nat) :
    (r.feedAll line (es.map fun e => (Text.assignmentLine e.1 e.2).seen)).reading = .idle ∧
      ∀ q ∈ Settings.launchKeys,
        (r.feedAll line (es.map fun e => (Text.assignmentLine e.1 e.2).seen)).settings.get? q =
          ((OrderedMap.find? q es).filter (· ≠ [])).or (r.settings.get? q) := by
  induction es generalizing r line with
  | nil => exact ⟨hr, fun q _ => rfl⟩
  | cons e es ih =>
    obtain ⟨key, value⟩ := e
    obtain ⟨hk, hn, hdelivered⟩ := hes _ List.mem_cons_self
    rw [List.map_cons, List.nodup_cons] at hnodup
    have hseen : (Text.assignmentLine key value).seen.trim = (Text.assignmentLine key value).seen :=
      Text.trim_trim _
    obtain ⟨hreading, hsettings⟩ := feed_delivered hr hk hn hdelivered line
    obtain ⟨hreading', hsettings'⟩ := ih hreading (fun e he => hes e (List.mem_cons_of_mem _ he))
      hnodup.2 (line + 1)
    rw [List.map_cons, feedAll, hseen]
    refine ⟨hreading', fun q hq => ?_⟩
    rw [hsettings' q hq, hsettings q hq, OrderedMap.find?]
    by_cases hqk : key = q
    · subst hqk
      rw [if_pos rfl, OrderedMap.find?_eq_none_iff.2 hnodup.1]
      by_cases hvalue : value = []
      · simp [hvalue, Option.filter]
      · simp [hvalue, Option.filter]
    · rw [if_neg hqk, if_neg fun h => hqk h.1.symm]

end BodyReader
end HeadJob
