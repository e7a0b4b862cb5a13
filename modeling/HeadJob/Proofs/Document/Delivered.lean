import HeadJob.Config.Storage
import HeadJob.Proofs.Config.Entry
import HeadJob.Proofs.Document.Reload

/-!
What a launch finds in a document that was written and read again.

It finds what the document has under the keys that it looks at, if their lines are read as they are
and no other line is in the way.  A key that has an empty value is found to have none, which is the same
to a launch.
-/

namespace HeadJob
namespace Settings

variable {s s' : Settings}

/-- The same under the keys that a launch looks at, where an empty value may be missing. -/
def LaunchesLike (s s' : Settings) : Prop :=
  ∀ key ∈ launchKeys, s'.get? key = (s.get? key).filter (· ≠ [])

theorem nonEmpty?_of_launchesLike (h : s.LaunchesLike s') {key : Text} (hkey : key ∈ launchKeys) :
    s'.nonEmpty? key = s.nonEmpty? key := by
  rw [nonEmpty?, nonEmpty?, unquoted?, unquoted?, h key hkey]
  cases s.get? key with
  | none => rfl
  | some value =>
    by_cases hvalue : value = []
    · subst hvalue
      rfl
    · simp [Option.filter, hvalue]

theorem namespace?_of_launchesLike (h : s.LaunchesLike s') : s'.namespace? = s.namespace? :=
  nonEmpty?_of_launchesLike h (by simp [launchKeys])

theorem launchDir?_of_launchesLike (h : s.LaunchesLike s') : s'.launchDir? = s.launchDir? :=
  nonEmpty?_of_launchesLike h (by simp [launchKeys])

theorem volumes_of_launchesLike (h : s.LaunchesLike s') : s'.volumes = s.volumes := by
  have hclaim : s'.storageClaim? = s.storageClaim? :=
    nonEmpty?_of_launchesLike h (by simp [launchKeys])
  have hpath : s'.storagePath? = s.storagePath? :=
    nonEmpty?_of_launchesLike h (by simp [launchKeys])
  have hpod : s'.pod?.getD [] = s.pod?.getD [] := by
    rw [pod?, pod?, h podKey (by simp [launchKeys])]
    cases s.get? podKey with
    | none => rfl
    | some value =>
      by_cases hvalue : value = []
      · subst hvalue
        rfl
      · simp [Option.filter, hvalue]
  rw [volumes, volumes, hpod, storage?, storage?, hclaim, hpath]

end Settings

namespace Document

open Delimiter (braces)

variable {d : Document}

/-- A document whose lines stay apart launches like what is read from its text. -/
structure Delivers (d : Document) : Prop where
  lined : d.Lined
  settings : ∀ e ∈ d.settings.entries, e.1.IsKey ∧ '\n' ∉ e.2 ∧ Text.IsDelivered e.1 e.2
  carried : ∀ t ∈ d.nested, t.IsCarried
  nested : CarriedFrom 0 d.nested
  stays : braces.NeverNegative (Text.marks d.blockLines)
  closes : braces.balance (Text.marks d.blockLines) = 0 ∨ d.after = [] ∨ d.after = [[]]

/-- A launch finds the same in a delivered document as in the one that was written. -/
theorem exists_ofText_of_delivers (hd : d.Delivers) :
    ∃ d', ofText d.name d.render = .ok d' ∧ d.settings.LaunchesLike d'.settings := by
  obtain ⟨-, r, n, hr, hcontents⟩ := contents_excerpt hd.stays hd.closes
  -- the entries, then the sub-blocks, then at most a brace that closes nothing
  obtain ⟨hreading, hsettings⟩ := BodyReader.feedAll_delivered (r := {}) rfl hd.settings d.nodup_keys
    (d.before.length + 2)
  have hseen : d.nested.map Text.seen = d.nested :=
    (List.map_congr_left fun t ht => (hd.carried t ht).seen).trans (List.map_id _)
  have hlines : BodyReader.seenLines d.settings.entries d.nested =
      (d.settings.entries.map fun e => (Text.assignmentLine e.1 e.2).seen) ++ d.nested := by
    rw [BodyReader.seenLines, List.map_append, List.map_map, hseen]
    rfl
  have hcarried := BodyReader.feedAll_carried hd.nested hreading hd.carried
    (d.before.length + 2 + (d.settings.entries.map fun e =>
      (Text.assignmentLine e.1 e.2).seen).length)
  rw [hlines, BodyReader.feedAll_append, hcarried] at hr
  have hfinish : ∀ key ∈ Settings.launchKeys,
      r.finish.settings.get? key = (d.settings.get? key).filter (· ≠ []) := by
    intro key hkey
    have hget := hsettings key hkey
    rw [show (({} : BodyReader).settings.get? key) = none from rfl, Option.or_none] at hget
    rcases hr with rfl | rfl
    · exact hget
    · rw [BodyReader.feed_brace_of_idle rfl]
      exact hget
  refine ⟨_, ofText_render hd.lined, fun key hkey => ?_⟩
  dsimp only
  rw [hcontents]
  exact hfinish key hkey

end Document
end HeadJob
