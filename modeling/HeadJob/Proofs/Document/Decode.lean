import HeadJob.Proofs.Document.Reload

/-!
Documents put together from well-formed data.

What a key, a value, a sub-block and the lines around a block may be is said here without the readers:
in terms of the characters outside quotes and of how many delimiters are open.  Such a document is
what is read from its own text, and nothing but its sub-blocks is warned of.
-/

namespace HeadJob

open Delimiter (brackets braces)

namespace Text

/-- A key without any character that a scan looks for. -/
structure IsPlainKey (t : Text) : Prop where
  ne_nil : t ≠ []
  trim : t.trim = t
  noBreak : '\n' ∉ t
  plain : ∀ c ∈ t, c ∉ ['=', '\'', '"', '{', '}', '/', '\\']

/-- No two slashes stand next to each other outside quotes. -/
def SlashesApart (t : Text) : Prop :=
  ∀ a b, t = a ++ '/' :: '/' :: b → (Scan.start.run a).quote ≠ none

theorem slashesApart_iff {t : Text} : t.SlashesApart ↔ t.stripComment = t := Scan.isBare_iff.symm

/-- A value whose delimiters outside quotes are balanced. -/
structure IsCompleteValue (t : Text) : Prop where
  ne_nil : t ≠ []
  trim : t.trim = t
  noBreak : '\n' ∉ t
  slashes : t.SlashesApart
  stays : braces.NeverNegative (Scan.start.outside t)
  brackets : brackets.balance (Scan.start.outside t) = 0
  braces : braces.balance (Scan.start.outside t) = 0

theorem IsPlainKey.isKey {t : Text} (h : t.IsPlainKey) : t.IsKey where
  ne_nil := h.ne_nil
  trim := h.trim
  noBreak := h.noBreak
  equals := fun hmem => h.plain _ hmem (by simp)

theorem IsCompleteValue.isValue {t : Text} (h : t.IsCompleteValue) : t.IsValue :=
  ⟨h.ne_nil, h.trim, h.noBreak⟩

theorem IsPlainKey.isUnmarked {t : Text} (h : t.IsPlainKey) : t.IsUnmarked := by
  intro c hc hmark
  refine h.plain c hc ?_
  simp only [List.mem_cons] at hmark ⊢
  tauto

theorem IsPlainKey.notMem_outside {t : Text} (h : t.IsPlainKey) {c : Char}
    (hc : c ∈ ['=', '\'', '"', '{', '}', '/', '\\']) : c ∉ Scan.start.outside t :=
  fun hmem => h.plain c (Scan.outside_subset _ _ hmem) hc

/-- A plain key makes no difference to how its value is read. -/
theorem readsBack_of_isPlainKey {key value : Text} (hk : key.IsPlainKey)
    (hbare : Scan.start.IsBare value) (hbrackets : brackets.netChange value = 0)
    (hbraces : braces.netChange value = 0) : ReadsBack key value where
  bare := by
    have hline : assignmentLine key value = key ++ [' '] ++ '=' :: [' '] ++ value := by
      simp [assignmentLine]
    have hslash : '/' ∉ key := fun hmem => hk.plain _ hmem (by simp)
    rw [hline, stripComment_append_equals (by decide) (by decide), hk.isUnmarked.run]
    exact ⟨Scan.isBare_of_notMem hslash _, hbare⟩
  opens := hk.isUnmarked.opensSubBlock_assignmentLine value
  brackets := hbrackets
  braces := hbraces

theorem IsCompleteValue.readsBack {key value : Text} (hv : value.IsCompleteValue)
    (hk : key.IsPlainKey) : ReadsBack key value :=
  readsBack_of_isPlainKey hk (slashesApart_iff.1 hv.slashes) hv.brackets hv.braces

end Text

/-! ## Sub-blocks -/

/-- The lines of one sub-block, which closes on the last of them and not before. -/
structure IsSubBlock (ls : List Text) : Prop where
  lines : ∀ l ∈ ls, l ≠ [] ∧ l.trim = l ∧ '\n' ∉ l ∧ l.SlashesApart
  opens : ∃ first rest, ls = first :: rest ∧
    ∃ a b, Scan.start.outside first = a ++ '{' :: b ∧ '=' ∉ a
  stays : braces.NeverNegative (ls.flatMap Scan.start.outside)
  deeper : ∀ a ∈ ls.inits, a ≠ [] → a ≠ ls → 0 < braces.balance (a.flatMap Scan.start.outside)
  closes : braces.balance (ls.flatMap Scan.start.outside) = 0

/-- One warning for each sub-block, at its first line, from line number `line` on. -/
def Warning.ofSubBlocks : (line : Nat) → List (List Text) → List Warning
  | _, [] => []
  | line, ls :: blocks =>
    (ls.head?.map (nestedBlock line)).toList ++ ofSubBlocks (line + ls.length) blocks

theorem Text.opensSubBlock_of_outside {t a b : Text} (h : Scan.start.outside t = a ++ '{' :: b)
    (ha : '=' ∉ a) : t.opensSubBlock = true := by
  have hfind : ∀ a : Text, '=' ∉ a →
      (a ++ '{' :: b).find? (fun c => c = '{' || c = '=') = some '{' := by
    intro a ha
    induction a with
    | nil => rfl
    | cons c a ih =>
      simp only [List.mem_cons, not_or] at ha
      rw [List.cons_append]
      by_cases hc : c = '{'
      · subst hc
        rfl
      · rw [List.find?_cons_of_neg (by simp [hc, Ne.symm ha.1]), ih ha.2]
  rw [opensSubBlock, h, hfind a ha]
  rfl

namespace IsSubBlock

variable {ls : List Text}

theorem isCarried (h : IsSubBlock ls) : ∀ l ∈ ls, l.IsCarried := by
  intro l hl
  obtain ⟨hne, htrim, hline, hslashes⟩ := h.lines l hl
  exact ⟨hne, htrim, hline, Text.slashesApart_iff.1 hslashes⟩

/-- In a sub-block that has begun, the depth is the number of braces that are open. -/
theorem carriedFrom_append (h : IsSubBlock ls) {a b : List Text} (hls : ls = a ++ b) (ha : a ≠ [])
    (line : Nat) (rest : List Text) :
    (CarriedFrom (braces.balance (a.flatMap Scan.start.outside)).toNat (b ++ rest) ↔
      CarriedFrom 0 rest) ∧
    Warning.ofOpenings (braces.balance (a.flatMap Scan.start.outside)).toNat line (b ++ rest) =
      Warning.ofOpenings 0 (line + b.length) rest := by
  induction b generalizing a line with
  | nil =>
    rw [List.append_nil] at hls
    rw [← hls, h.closes]
    exact ⟨Iff.rfl, rfl⟩
  | cons t b ih =>
    have hpos : 0 < braces.balance (a.flatMap Scan.start.outside) :=
      h.deeper a ((List.mem_inits _ _).2 ⟨t :: b, hls.symm⟩) ha (by simp [hls])
    have hnext : ((braces.balance (a.flatMap Scan.start.outside)).toNat : Int) +
        braces.netChange t = braces.balance ((a ++ [t]).flatMap Scan.start.outside) := by
      rw [List.flatMap_append, List.flatMap_singleton, Delimiter.balance_append,
        ← Delimiter.netChange_eq_balance]
      omega
    obtain ⟨hcarried, hopenings⟩ := ih (a := a ++ [t]) (by simp [hls]) (by simp) (line + 1)
    rw [List.cons_append, CarriedFrom, Warning.ofOpenings, if_neg (by omega), hnext, hopenings,
      hcarried, List.length_cons, Nat.add_assoc, Nat.add_comm 1]
    exact ⟨⟨And.right, fun hrest => ⟨fun hzero => absurd hzero (by omega), hrest⟩⟩, rfl⟩

theorem carriedFrom_zero (h : IsSubBlock ls) (line : Nat) (rest : List Text) :
    (CarriedFrom 0 (ls ++ rest) ↔ CarriedFrom 0 rest) ∧
    Warning.ofOpenings 0 line (ls ++ rest) =
      (ls.head?.map (Warning.nestedBlock line)).toList ++
        Warning.ofOpenings 0 (line + ls.length) rest := by
  obtain ⟨first, later, hls, a, b, houtside, ha⟩ := h.opens
  have hopens := Text.opensSubBlock_of_outside houtside ha
  obtain ⟨hcarried, hopenings⟩ :=
    h.carriedFrom_append (a := [first]) hls (by simp) (line + 1) rest
  have hnext : ((0 : Nat) : Int) + braces.netChange first =
      braces.balance ([first].flatMap Scan.start.outside) := by
    rw [List.flatMap_singleton, ← Delimiter.netChange_eq_balance, Int.natCast_zero, Int.zero_add]
  rw [hls, List.cons_append, CarriedFrom, Warning.ofOpenings, hnext, hcarried, hopenings, if_pos rfl,
    List.length_cons, Nat.add_assoc, Nat.add_comm 1]
  exact ⟨⟨And.right, fun hrest => ⟨fun _ => hopens, hrest⟩⟩, rfl⟩

theorem depthAfter_marks (h : IsSubBlock ls) : braces.depthAfter 1 (Text.marks ls) = some 1 := by
  have hmarks : Text.marks ls = ls.flatMap Scan.start.outside :=
    List.flatMap_congr fun l hl => congrArg _ (h.isCarried l hl).bare
  rw [hmarks]
  exact Delimiter.depthAfter_one_eq_some_iff.2 ⟨h.stays, by rw [h.closes]; rfl⟩

end IsSubBlock

/-- Sub-blocks one after another are carried through, with one warning each. -/
theorem carriedFrom_flatten {blocks : List (List Text)} (h : ∀ ls ∈ blocks, IsSubBlock ls)
    (line : Nat) :
    CarriedFrom 0 blocks.flatten ∧
      Warning.ofOpenings 0 line blocks.flatten = Warning.ofSubBlocks line blocks := by
  induction blocks generalizing line with
  | nil => exact ⟨rfl, rfl⟩
  | cons ls blocks ih =>
    obtain ⟨hcarried, hopenings⟩ := (h ls List.mem_cons_self).carriedFrom_zero line blocks.flatten
    obtain ⟨ih₁, ih₂⟩ := ih (fun l hl => h l (List.mem_cons_of_mem ls hl)) (line + ls.length)
    rw [List.flatten_cons, hcarried, hopenings, ih₂]
    exact ⟨ih₁, rfl⟩

/-! ## Documents -/

namespace Document

/-- A document of well-formed parts, whose nested lines are the sub-blocks one after another. -/
structure WellFormed (d : Document) (blocks : List (List Text)) : Prop where
  name_ne_nil : d.name ≠ []
  name : ∀ c ∈ d.name, Placeholder.isKeyChar c = true
  settings : ∀ e ∈ d.settings.entries, e.1.IsPlainKey ∧ e.2.IsCompleteValue
  nested : d.nested = blocks.flatten
  blocks : ∀ ls ∈ blocks, IsSubBlock ls
  notFound : Excerpt.ofLines d.name d.before = .error (.blockNotFound d.name)
  closed : d.before.foldl Header.clampedDepth 0 = 0
  before : ∀ l ∈ d.before, l.IsLine
  last : d.after.getLast? ≠ some []
  after : ∀ l ∈ d.after, l.IsLine

variable {d : Document} {blocks : List (List Text)}

theorem WellFormed.leads (h : d.WellFormed blocks) : Header.Leads d.name d.before := by
  have hnone : Header.find d.name 0 none 0 d.before = none := by
    have hnotFound := h.notFound
    unfold Excerpt.ofLines at hnotFound
    split at hnotFound
    · assumption
    · cases hnotFound
  obtain ⟨s, hs⟩ := Header.Search.exists_after?_of_find_eq_none d.name (s := {}) hnone
  refine ⟨s, hs, ?_, fun hname => absurd hname h.name_ne_nil⟩
  rw [Header.depth_after? h.name hs]
  exact h.closed

theorem WellFormed.isCarried (h : d.WellFormed blocks) : ∀ t ∈ d.nested, t.IsCarried := by
  intro t ht
  rw [h.nested] at ht
  obtain ⟨ls, hls, ht⟩ := List.mem_flatten.1 ht
  exact (h.blocks ls hls).isCarried t ht

theorem WellFormed.writable (h : d.WellFormed blocks) : d.Writable where
  name := h.name
  settings := fun e he => ⟨(h.settings e he).1.isKey, (h.settings e he).2.isValue⟩
  nested := h.isCarried
  before := fun l hl => (h.before l hl).1
  leads := by
    rw [Text.map_chomp h.before]
    exact h.leads
  after := fun l hl => (h.after l hl).1

theorem depthAfter_one_marks {ls : List Text}
    (h : ∀ l ∈ ls, braces.depthAfter 1 (Scan.start.outside l.stripComment) = some 1) :
    braces.depthAfter 1 (Text.marks ls) = some 1 := by
  induction ls with
  | nil => rfl
  | cons l ls ih =>
    rw [Text.marks, List.flatMap_cons, Delimiter.depthAfter_append, h l List.mem_cons_self]
    exact ih fun l' hl' => h l' (List.mem_cons_of_mem l hl')

/-- The lines of a block close what they open, and nothing else. -/
theorem WellFormed.depthAfter_blockLines (h : d.WellFormed blocks) :
    braces.depthAfter 1 (Text.marks d.blockLines) = some 1 := by
  have hentries : braces.depthAfter 1 (Text.marks
      (d.settings.entries.map fun e => Text.assignmentLine e.1 e.2)) = some 1 := by
    refine depthAfter_one_marks (List.forall_mem_map.2 fun e he => ?_)
    obtain ⟨hk, hv⟩ := h.settings e he
    rw [(hv.readsBack hk).bare, hk.isUnmarked.outside_assignmentLine,
      Delimiter.depthAfter_append, Delimiter.depthAfter_of_notMem (hk.notMem_outside (by decide))
        (hk.notMem_outside (by decide)), Option.bind_some, Delimiter.depthAfter_append,
      Delimiter.depthAfter_of_notMem (by decide) (by decide), Option.bind_some]
    exact Delimiter.depthAfter_one_eq_some_iff.2 ⟨hv.stays, by rw [hv.braces]; rfl⟩
  have hnested : ∀ blocks : List (List Text), (∀ ls ∈ blocks, IsSubBlock ls) →
      braces.depthAfter 1 (Text.marks blocks.flatten) = some 1 := by
    intro blocks hblocks
    induction blocks with
    | nil => rfl
    | cons ls blocks ih =>
      rw [List.flatten_cons, Text.marks_append, Delimiter.depthAfter_append,
        (hblocks ls List.mem_cons_self).depthAfter_marks]
      exact ih fun l hl => hblocks l (List.mem_cons_of_mem ls hl)
  rw [blockLines, Text.marks_append, Delimiter.depthAfter_append, hentries, h.nested]
  exact hnested blocks h.blocks

/-- A document of well-formed parts is what is read from its text, with one warning for each
sub-block. -/
theorem ofText_render_of_wellFormed (h : d.WellFormed blocks) :
    ofText d.name d.render = .ok
      { d with
        warnings := Warning.ofSubBlocks (d.before.length + 2 + d.settings.size) blocks } := by
  have hwritten := BodyReader.feedAll_written d.nodup_keys h.writable.settings
    (fun e he => (h.settings e he).2.readsBack (h.settings e he).1)
    h.isCarried (by rw [h.nested]; exact (carriedFrom_flatten h.blocks 0).1)
    (d.before.length + 2)
  rw [← BodyReader.seenLines, OrderedMap.ofList_entries] at hwritten
  have hcontents : d.excerpt.body.contents = ⟨d.settings, d.nested,
      Warning.ofOpenings 0 (d.before.length + 2 + d.settings.size) d.nested⟩ := by
    rw [excerpt_of_depthAfter_one h.depthAfter_blockLines, contents_bodyLines, hwritten]
    rfl
  have hwarnings : Warning.ofOpenings 0 (d.before.length + 2 + d.settings.size) d.nested =
      Warning.ofSubBlocks (d.before.length + 2 + d.settings.size) blocks := by
    rw [h.nested]
    exact (carriedFrom_flatten h.blocks _).2
  rw [ofText_render h.writable.lined, hcontents, hwarnings,
    excerpt_of_depthAfter_one h.depthAfter_blockLines, Text.lines_join h.after,
    Text.dropFinalEmpty_of_ne h.last, Text.map_chomp h.before]
  rfl

theorem ofText_render_of_wellFormed_profiles :
    ∃ d blocks, WellFormed d blocks ∧ d.settings.entries ≠ [] ∧ blocks.length = 2 ∧
      ofText d.name d.render = .ok
        { d with
          warnings := Warning.ofSubBlocks (d.before.length + 2 + d.settings.size) blocks } := by
  let blocks : List (List Text) :=
    [["base \x7b".toList, "cpus = '\x7b'".toList, "\x7d".toList], ["empty \x7b \x7d".toList]]
  let d : Document :=
    { name := "k8s".toList
      settings := ⟨[("pod".toList, "[[a: 'x // y']]".toList)], by decide⟩
      nested := blocks.flatten
      before := ["docker \x7b".toList, "// k8s \x7b".toList, "\x7d".toList]
      after := [[], "k8s \x7b \x7d".toList]
      warnings := [] }
  have hd : WellFormed d blocks :=
    { name_ne_nil := by decide
      name := List.all_eq_true.1 (by decide)
      settings := List.forall_mem_singleton.2
        ⟨⟨by decide, by decide, by decide, by simp⟩, by decide, by decide, by decide,
          Text.slashesApart_iff.2 (by decide), by decide, by decide, by decide⟩
      nested := rfl
      blocks := by
        have hline : ∀ l ∈ blocks.flatten,
            l ≠ [] ∧ l.trim = l ∧ '\n' ∉ l ∧ l.stripComment = l := by decide
        refine List.forall_mem_cons.2 ⟨⟨fun l hl => ?_, ⟨_, _, rfl, "base ".toList, [], by decide⟩,
          by decide, by decide, by decide⟩, List.forall_mem_singleton.2 ⟨fun l hl => ?_,
          ⟨_, _, rfl, "empty ".toList, " \x7d".toList, by decide⟩, by decide, by decide, by decide⟩⟩
        · obtain ⟨h₁, h₂, h₃, h₄⟩ := hline l (List.mem_append_left _ hl)
          exact ⟨h₁, h₂, h₃, Text.slashesApart_iff.2 h₄⟩
        · obtain ⟨h₁, h₂, h₃, h₄⟩ := hline l (List.mem_append_right _ (by simpa using hl))
          exact ⟨h₁, h₂, h₃, Text.slashesApart_iff.2 h₄⟩
      notFound := by decide
      closed := by decide
      before := by decide
      last := by decide
      after := by decide }
  exact ⟨d, blocks, hd, by decide, rfl, ofText_render_of_wellFormed hd⟩

end Document
end HeadJob
