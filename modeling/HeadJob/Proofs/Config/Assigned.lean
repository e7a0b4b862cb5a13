import HeadJob.Proofs.Config.Spread

/-!
Bodies that hold nothing but assignments.

The lines of an assignment are read as that assignment, so a body whose lines are those of complete
assignments, one after another, says just these.  Conversely, a reader that warns of nothing but keys
that come again has passed over no line: each belongs to one of the assignments.
-/

namespace HeadJob

open Delimiter (brackets braces)

/-- The lines of a body as they are read: trimmed and not blank, each with its number. -/
def Text.numbered (line : Nat) (ls : List Text) : List (Text × Nat) :=
  ((ls.map trim).zipIdx line).filter fun l => l.1 ≠ []

theorem Text.of_mem_numbered {line : Nat} {ls : List Text} {l : Text × Nat}
    (h : l ∈ numbered line ls) : l.1 ≠ [] ∧ l.1.trim = l.1 := by
  obtain ⟨hmem, hne⟩ := List.mem_filter.1 h
  have hline := List.mem_map_of_mem (f := Prod.fst) hmem
  rw [List.zipIdx_map_fst] at hline
  obtain ⟨u, -, hu⟩ := List.mem_map.1 hline
  exact ⟨by simpa using hne, by rw [← hu, trim_trim]⟩

theorem Text.numbered_of_trim {ls : List Text} (h : ∀ l ∈ ls, l ≠ [] ∧ l.trim = l) (line : Nat) :
    numbered line ls = ls.zipIdx line := by
  have hmap : ls.map trim = ls :=
    (List.map_congr_left fun l hl => (h l hl).2).trans (List.map_id ls)
  rw [numbered, hmap, List.filter_eq_self]
  intro l hl
  have hmem := List.mem_map_of_mem (f := Prod.fst) hl
  rw [List.zipIdx_map_fst] at hmem
  exact decide_eq_true (h l.1 hmem).1

/-- An assignment on its lines. -/
structure Assignment where
  line : Nat
  front : Text
  back : Text
  /-- The lines after the first one, with their numbers. -/
  more : List (Text × Nat)
  /-- The first line is parted at its first equals sign. -/
  notMem_front : '=' ∉ front

namespace Assignment

def opening (a : Assignment) : Text := a.front ++ '=' :: a.back

def lines (a : Assignment) : List (Text × Nat) := (a.opening, a.line) :: a.more

def key (a : Assignment) : Text := a.front.trim

def value (a : Assignment) : Text := a.back.trim ++ a.more.flatMap fun l => ' ' :: l.1

def entry (a : Assignment) : Text × Text := (a.key, a.value)

def spread (a : Assignment) : Spread := ⟨a.back.trim, a.more.map Prod.fst⟩

/-- The assignment with one more line. -/
def extend (a : Assignment) (l : Text × Nat) : Assignment := { a with more := a.more ++ [l] }

theorem lines_extend (a : Assignment) (l : Text × Nat) : (a.extend l).lines = a.lines ++ [l] := rfl

theorem spread_extend (a : Assignment) (l : Text × Nat) :
    (a.extend l).spread = ⟨a.back.trim, a.spread.more ++ [l.1]⟩ := by
  simp [spread, extend]

theorem text_spread (a : Assignment) : a.spread.text = a.value := by
  simp [spread, Spread.text, value, List.flatMap_map]

theorem trim_value (a : Assignment) (hback : a.back.trim ≠ [])
    (hmore : ∀ l ∈ a.more, l.1 ≠ [] ∧ l.1.trim = l.1) : a.value.trim = a.value := by
  rw [← text_spread]
  exact Spread.trim_text hback (Text.trim_trim _) (List.forall_mem_map.2 hmore)

/-- The first line assigns something to a key, and the value is complete with the last line and not
before. -/
structure IsComplete (a : Assignment) : Prop where
  opens : a.opening.opensSubBlock = false
  key : a.key ≠ []
  value : a.back.trim ≠ []
  read : a.spread.IsRead

theorem assignment?_opening {a : Assignment} (hkey : a.key ≠ []) (hvalue : a.back.trim ≠ []) :
    a.opening.assignment? = some (a.key, a.back.trim) := by
  rw [opening, Text.assignment?_of_notMem a.notMem_front]
  exact if_neg (not_or.2 ⟨hkey, hvalue⟩)

end Assignment

namespace Warning

/-- The warning about an assignment to a key that was assigned before, which tells the value it had
last.  The assignments before it are listed from the last one back. -/
def ofRepeat? (earlier : List Assignment) (a : Assignment) : Option Warning :=
  (earlier.find? fun p => p.key = a.key).map fun p => duplicateKey a.line a.key p.value

def ofRepeats : (earlier : List Assignment) → List Assignment → List Warning
  | _, [] => []
  | earlier, a :: as => (ofRepeat? earlier a).toList ++ ofRepeats (a :: earlier) as

end Warning

namespace BodyReader

variable {r r' : BodyReader}

/-! ## Reading what a value is spread over -/

/-- Reads lines that have their numbers. -/
def feedEach (r : BodyReader) (ls : List (Text × Nat)) : BodyReader :=
  ls.foldl (fun r l => r.feed l.2 l.1) r

@[simp] theorem feedEach_nil (r : BodyReader) : r.feedEach [] = r := rfl

@[simp] theorem feedEach_cons (r : BodyReader) (l : Text × Nat) (ls : List (Text × Nat)) :
    r.feedEach (l :: ls) = (r.feed l.2 l.1).feedEach ls := rfl

theorem feedEach_append (r : BodyReader) (a b : List (Text × Nat)) :
    r.feedEach (a ++ b) = (r.feedEach a).feedEach b := List.foldl_append

theorem feedAll_eq_feedEach (r : BodyReader) (line : Nat) (ls : List Text) :
    r.feedAll line ls = r.feedEach (Text.numbered line ls) := by
  induction ls generalizing r line with
  | nil => rfl
  | cons t ls ih =>
    rw [feedAll, ih]
    by_cases hblank : t.trim = []
    · have hnumbered : Text.numbered line (t :: ls) = Text.numbered (line + 1) ls := by
        simp [Text.numbered, hblank]
      rw [hnumbered, feed, if_pos hblank]
    · have hnumbered : Text.numbered line (t :: ls) =
          (t.trim, line) :: Text.numbered (line + 1) ls := by simp [Text.numbered, hblank]
      rw [hnumbered, feedEach_cons]

/-- Lines that do not close a value are added to it. -/
theorem feedEach_of_depthAfter {v : OpenValue} (hr : r.reading = .value v)
    {ls : List (Text × Nat)} (hls : ∀ l ∈ ls, l.1 ≠ []) {depth : Nat}
    (h : v.delimiter.depthAfter v.depth (ls.flatMap fun l => Scan.start.outside l.1) =
      some depth) :
    r.feedEach ls =
      { r with
        reading := .value { v with text := v.text ++ ls.flatMap fun l => ' ' :: l.1, depth } } := by
  induction ls generalizing r v with
  | nil =>
    cases h
    simp [← hr]
  | cons l ls ih =>
    rw [List.flatMap_cons, Delimiter.depthAfter_append] at h
    obtain ⟨m, hm, h⟩ := Option.bind_eq_some_iff.1 h
    have hstill : v.delimiter.closingOf v.depth l.1 = .still m :=
      Delimiter.closingFrom_of_depthAfter_eq_some hm
    have hfeed : r.feed l.2 l.1 =
        { r with reading := .value { v with text := v.text ++ ' ' :: l.1, depth := m } } := by
      rw [feed_of_value hr (hls l List.mem_cons_self), continueValue, hstill]
    rw [feedEach_cons, hfeed, ih rfl (fun u hu => hls u (List.mem_cons_of_mem l hu)) h]
    simp

/-- The line on which a value closes ends it. -/
theorem feedEach_of_closing {v : OpenValue} (hr : r.reading = .value v) {ls : List (Text × Nat)}
    (hls : ∀ l ∈ ls, l.1 ≠ []) {front rest : Text}
    (hne : v.delimiter.closing ≠ v.delimiter.opening)
    (hopen : v.delimiter.depthAfter v.depth
      ((ls.flatMap fun l => Scan.start.outside l.1) ++ Scan.start.outside front) = some 1)
    (hmark : (Scan.start.run front).isOutside v.delimiter.closing = true) (line : Nat) :
    r.feedEach (ls ++ [(front ++ v.delimiter.closing :: rest, line)]) =
      r.assign v.line v.key
        (Text.trim (v.text ++ (ls.flatMap fun l => ' ' :: l.1) ++
          ' ' :: (front ++ v.delimiter.closing :: rest))) := by
  rw [Delimiter.depthAfter_append] at hopen
  obtain ⟨m, hm, hfront⟩ := Option.bind_eq_some_iff.1 hopen
  have hclosed : v.delimiter.closingOf m (front ++ v.delimiter.closing :: rest) =
      .closed (0 + front.length) := by
    rw [Delimiter.closingOf, Delimiter.closingFrom_append,
      Delimiter.closingFrom_of_depthAfter_eq_some hfront]
    simp only [Delimiter.closingFrom, if_pos hmark, if_neg hne, Nat.le_refl, if_true]
  rw [feedEach_append, feedEach_of_depthAfter hr hls hm, feedEach_cons, feedEach_nil,
    feed_of_value rfl (by simp), continueValue, hclosed]
  rfl

/-- The lines of a complete assignment are read as that assignment. -/
theorem feedEach_lines {a : Assignment} (ha : a.IsComplete)
    (hlines : ∀ l ∈ a.lines, l.1 ≠ [] ∧ l.1.trim = l.1) (hr : r.reading = .idle) :
    r.feedEach a.lines = r.assign a.line a.key a.value := by
  have hassign := Assignment.assignment?_opening ha.key ha.value
  rw [Assignment.lines, feedEach_cons, feed_of_idle hr (hlines _ List.mem_cons_self).1]
  have hread := ha.read
  have htext := a.text_spread
  generalize hs : a.spread = s at hread htext
  have hback : a.back.trim = s.first := congrArg Spread.first hs
  have hmore : a.more.map Prod.fst = s.more := congrArg Spread.more hs
  rw [hback] at hassign
  rcases hread with ⟨value, hvalue⟩ | ⟨first, more, d, front, rest, hd, hopen, hmark⟩
  · have hnet := (Text.isBalanced_iff value).1 hvalue
    rw [start_of_netChange ha.opens hassign (hnet brackets (by simp)) (hnet braces (by simp)),
      List.map_eq_nil_iff.1 hmore, ← htext,
      show Spread.text ⟨value, []⟩ = value from List.append_nil _]
    rfl
  · have hclosing : d.closing ≠ d.opening := by
      rcases hd.turn with rfl | ⟨rfl, -⟩ <;> decide
    obtain ⟨ls, ls', hsplit, rfl, hrest⟩ := List.map_eq_append_iff.1 hmore
    obtain ⟨⟨last, n⟩, rfl, rfl⟩ := List.map_eq_singleton_iff.1 hrest
    have hmorelines : ∀ l ∈ ls ++ [(front ++ d.closing :: rest, n)], l.1 ≠ [] ∧ l.1.trim = l.1 :=
      fun l hl => hlines l (List.mem_cons_of_mem _ (hsplit ▸ hl))
    have hvalue : first ++ (ls.flatMap fun l => ' ' :: l.1) ++ ' ' :: (front ++ d.closing :: rest) =
        a.value := by
      rw [← htext, Spread.text_append]
      simp [Spread.text, List.flatMap_map]
    calc (r.start a.line a.opening).feedEach a.more
      _ = feedEach { r with reading := .value ⟨a.key, a.line, first, d, (d.netChange first).toNat⟩ }
            (ls ++ [(front ++ d.closing :: rest, n)]) := by
          rw [start_of_keepsOpen ha.opens hassign hd, hsplit]
      _ = r.assign a.line a.key (Text.trim (first ++ (ls.flatMap fun l => ' ' :: l.1) ++
            ' ' :: (front ++ d.closing :: rest))) :=
          feedEach_of_closing (v := ⟨a.key, a.line, first, d, (d.netChange first).toNat⟩) rfl
            (fun l hl => (hmorelines l (List.mem_append_left _ hl)).1) hclosing
            (by simpa [List.flatMap_map] using hopen) hmark n
      _ = r.assign a.line a.key a.value := by
          rw [hvalue, a.trim_value ha.value fun l hl => hlines l (List.mem_cons_of_mem _ hl)]

/-! ## Assignments one after another -/

theorem assign_ofList (earlier : List Assignment) (ws : List Warning) (a : Assignment) :
    assign ⟨.ofList (earlier.reverse.map Assignment.entry), [], ws, .idle⟩ a.line a.key a.value =
      ⟨.ofList ((a :: earlier).reverse.map Assignment.entry), [],
        ws ++ (Warning.ofRepeat? earlier a).toList, .idle⟩ := by
  have hget : (OrderedMap.ofList (earlier.reverse.map Assignment.entry)).get? a.key =
      (earlier.find? fun p => p.key = a.key).map Assignment.value := by
    rw [OrderedMap.get?_ofList, ← List.map_reverse, List.reverse_reverse, List.find?_map,
      Option.map_map]
    rfl
  have hset : OrderedMap.ofList ((a :: earlier).reverse.map Assignment.entry) =
      (OrderedMap.ofList (earlier.reverse.map Assignment.entry)).insert a.key a.value := by
    rw [List.reverse_cons, List.map_append]
    exact OrderedMap.ofList_concat _ _
  rw [hset, assign, Warning.ofRepeat?]
  dsimp only
  rw [hget]
  cases earlier.find? fun p => p.key = a.key with
  | none => simp
  | some p => rfl

theorem feedEach_assignments {as : List Assignment} (has : ∀ a ∈ as, a.IsComplete)
    (hlines : ∀ l ∈ as.flatMap Assignment.lines, l.1 ≠ [] ∧ l.1.trim = l.1)
    (earlier : List Assignment) (ws : List Warning) :
    feedEach ⟨.ofList (earlier.reverse.map Assignment.entry), [], ws, .idle⟩
        (as.flatMap Assignment.lines) =
      ⟨.ofList ((earlier.reverse ++ as).map Assignment.entry), [],
        ws ++ Warning.ofRepeats earlier as, .idle⟩ := by
  induction as generalizing earlier ws with
  | nil => simp [Warning.ofRepeats]
  | cons a as ih =>
    rw [List.flatMap_cons] at hlines ⊢
    rw [feedEach_append, feedEach_lines (has a List.mem_cons_self)
      (fun l hl => hlines l (List.mem_append_left _ hl)) rfl, assign_ofList,
      ih (fun p hp => has p (List.mem_cons_of_mem a hp))
        (fun l hl => hlines l (List.mem_append_right _ hl)),
      Warning.ofRepeats]
    simp

end BodyReader

/-- A body whose lines are those of complete assignments says these, and only keys that come again are
warned of. -/
theorem Body.contents_of_assignments {b : Body} {as : List Assignment}
    (has : ∀ a ∈ as, a.IsComplete)
    (hlines : as.flatMap Assignment.lines = Text.numbered b.firstLine b.lines) :
    b.contents = ⟨.ofList (as.map Assignment.entry), [], Warning.ofRepeats [] as⟩ := by
  have hread : ∀ l ∈ as.flatMap Assignment.lines, l.1 ≠ [] ∧ l.1.trim = l.1 := by
    rw [hlines]
    exact fun l hl => Text.of_mem_numbered hl
  have hfeed := BodyReader.feedEach_assignments has hread [] []
  rw [hlines, ← BodyReader.feedAll_eq_feedEach] at hfeed
  rw [contents, show ({} : BodyReader) = ⟨.ofList ([].reverse.map Assignment.entry), [], [], .idle⟩
    from rfl, hfeed]
  rfl

/-! ## Nothing is passed over in silence -/

/-- Of nothing but keys that come again. -/
def Warning.OnlyRepeats (ws : List Warning) : Prop := ∀ w ∈ ws, w.kind = .duplicateKey

instance (ws : List Warning) : Decidable (Warning.OnlyRepeats ws) :=
  inferInstanceAs (Decidable (∀ w ∈ ws, w.kind = .duplicateKey))

namespace BodyReader

variable {r r' : BodyReader} {line : Nat} {t : Text} {ls : List (Text × Nat)}

/-- The lines that have been read are those of complete assignments, and of the one that is being
read. -/
inductive Consists : List (Text × Nat) → Reading → Prop
  | idle (as : List Assignment) (has : ∀ a ∈ as, a.IsComplete) :
      Consists (as.flatMap Assignment.lines) .idle
  | value (as : List Assignment) (has : ∀ a ∈ as, a.IsComplete) (a : Assignment) (v : OpenValue)
      (hopens : a.opening.opensSubBlock = false) (hkey : a.key ≠ []) (hback : a.back.trim ≠ [])
      (hd : v.delimiter.KeepsOpen a.back.trim)
      (hdepth : v.delimiter.depthAfter (v.delimiter.netChange a.back.trim).toNat
        (a.spread.more.flatMap Scan.start.outside) = some v.depth) :
      Consists (as.flatMap Assignment.lines ++ a.lines) (.value v)

theorem Consists.complete {as : List Assignment} (has : ∀ a ∈ as, a.IsComplete) {a : Assignment}
    (ha : a.IsComplete) : Consists (as.flatMap Assignment.lines ++ a.lines) .idle := by
  have h := Consists.idle (as ++ [a]) (List.forall_mem_append.2 ⟨has, List.forall_mem_singleton.2 ha⟩)
  rwa [List.flatMap_append, List.flatMap_singleton] at h

theorem warnings_assign_prefix (r : BodyReader) (line : Nat) (key value : Text) :
    r.warnings <+: (r.assign line key value).warnings := by
  unfold assign
  dsimp only
  split
  · exact List.prefix_refl _
  · exact List.prefix_append _ _

theorem Step.warnings_prefix (h : Step line t r r') : r.warnings <+: r'.warnings := by
  cases h with
  | blank => exact List.prefix_refl _
  | carry => exact List.prefix_refl _
  | openBlock => exact List.prefix_append _ _
  | skip => exact List.prefix_append _ _
  | excess => exact List.prefix_append _ _
  | openValue => exact List.prefix_refl _
  | assign => exact warnings_assign_prefix _ _ _ _
  | extend => exact List.prefix_refl _
  | close => exact warnings_assign_prefix _ _ _ _

theorem Consists.step (h : Consists ls r.reading) (ht : t ≠ []) (hstep : Step line t r r')
    (hrepeats : Warning.OnlyRepeats r'.warnings) : Consists (ls ++ [(t, line)]) r'.reading := by
  cases hstep with
  | blank hnil => exact absurd hnil ht
  | carry depth _ hr =>
    rw [hr] at h
    cases h
  | openBlock => cases hrepeats (.nestedBlock line t) (by simp [warn])
  | skip => cases hrepeats (.notAssignment line t) (by simp [warn])
  | excess key d => cases hrepeats (.unbalanced line d.closing key) (by simp [warn])
  | openValue key value d _ hr hassign hopens hd =>
    rw [hr] at h
    cases h with
    | idle as has =>
      obtain ⟨front, back, rfl, hfront, rfl, rfl, hkey, hvalue⟩ := Text.exists_of_assignment? hassign
      exact .value as has ⟨line, front, back, [], hfront⟩ _ hopens hkey hvalue hd rfl
  | assign key value _ hr hopens hassign hbrackets hbraces =>
    rw [hr] at h
    cases h with
    | idle as has =>
      obtain ⟨front, back, rfl, hfront, rfl, rfl, hkey, hvalue⟩ := Text.exists_of_assignment? hassign
      have hbalanced : (Text.trim back).IsBalanced := by
        rw [Text.isBalanced_iff]
        simp [hbrackets, hbraces]
      rw [reading_assign]
      exact .complete (a := ⟨line, front, back, [], hfront⟩) has
        ⟨hopens, hkey, hvalue, .atOnce _ hbalanced⟩
  | extend v depth _ hr hstill =>
    rw [hr] at h
    cases h with
    | value as has a _ hopens hkey hback hd hdepth =>
      rw [List.append_assoc, ← Assignment.lines_extend]
      refine .value as has (a.extend (t, line)) _ hopens hkey hback hd ?_
      rw [Assignment.spread_extend, List.flatMap_append, Delimiter.depthAfter_append]
      show (v.delimiter.depthAfter (v.delimiter.netChange a.back.trim).toNat _).bind _ = _
      rw [hdepth, List.flatMap_singleton]
      exact Delimiter.depthAfter_of_closingFrom_eq_still hstill
  | close v _ hr pos hclosed =>
    rw [hr] at h
    cases h with
    | value as has a _ hopens hkey hback hd hdepth =>
      have hread := Spread.isRead_of_closed hd hdepth hclosed
      rw [List.append_assoc, ← Assignment.lines_extend, reading_assign]
      refine .complete has ⟨hopens, hkey, hback, ?_⟩
      rwa [Assignment.spread_extend]

theorem Consists.feedEach {ls' : List (Text × Nat)} (h : Consists ls r.reading)
    (hne : ∀ l ∈ ls', l.1 ≠ []) (hrepeats : Warning.OnlyRepeats (r.feedEach ls').warnings) :
    Consists (ls ++ ls') (r.feedEach ls').reading := by
  induction ls' using List.reverseRecOn with
  | nil => rwa [List.append_nil]
  | append_singleton ls' l ih =>
    rw [feedEach_append, feedEach_cons, feedEach_nil] at hrepeats ⊢
    have hstep := step_feed l.2 l.1 (r.feedEach ls')
    have hbefore := ih (fun u hu => hne u (List.mem_append_left _ hu))
      fun w hw => hrepeats w (hstep.warnings_prefix.subset hw)
    rw [← List.append_assoc]
    exact hbefore.step (hne l (by simp)) hstep hrepeats

theorem warnings_finish_prefix (r : BodyReader) : r.warnings <+: r.finish.warnings := by
  unfold finish
  split
  · exact List.prefix_refl _
  · exact List.prefix_refl _
  · exact List.prefix_append _ _

/-- A reader that warned of nothing else to the end has read complete assignments. -/
theorem Consists.finish (h : Consists ls r.reading)
    (hrepeats : Warning.OnlyRepeats r.finish.warnings) :
    ∃ as : List Assignment, (∀ a ∈ as, a.IsComplete) ∧ as.flatMap Assignment.lines = ls := by
  generalize hr : r.reading = reading at h
  cases h with
  | idle as has => exact ⟨as, has, rfl⟩
  | value as has a v =>
    refine absurd (hrepeats (.unterminatedValue v.line v.key v.delimiter.closing) ?_) nofun
    rw [BodyReader.finish, hr]
    simp

end BodyReader

/-- A body that is warned of for nothing but keys that come again is read as assignments, one after
another, and each of its lines belongs to one of them. -/
theorem Body.contents_of_onlyRepeats {b : Body} (h : Warning.OnlyRepeats b.contents.warnings) :
    ∃ as : List Assignment, (∀ a ∈ as, a.IsComplete) ∧
      as.flatMap Assignment.lines = Text.numbered b.firstLine b.lines ∧
      b.contents = ⟨.ofList (as.map Assignment.entry), [], Warning.ofRepeats [] as⟩ := by
  have hread : BodyReader.Consists (Text.numbered b.firstLine b.lines)
      (BodyReader.feedAll {} b.firstLine b.lines).reading := by
    have hempty : BodyReader.Consists [] .idle := .idle [] (by simp)
    rw [BodyReader.feedAll_eq_feedEach]
    refine hempty.feedEach (r := {}) (fun l hl => (Text.of_mem_numbered hl).1) fun w hw => h w ?_
    rw [contents, BodyReader.feedAll_eq_feedEach]
    exact (BodyReader.warnings_finish_prefix _).subset hw
  obtain ⟨as, has, hlines⟩ := hread.finish h
  exact ⟨as, has, hlines, contents_of_assignments has hlines⟩

theorem Body.contents_of_onlyRepeats_of_list :
    ∃ b : Body, b.firstLine = 4 ∧ b.lines = [" n = 1".toList, [], "pod =[ '='".toList, " ".toList,
        "  ] ".toList, "n = m=2".toList] ∧
      b.contents.warnings = [.duplicateKey 9 "n".toList "1".toList] ∧
      ∃ as : List Assignment, (∀ a ∈ as, a.IsComplete) ∧
        as.flatMap Assignment.lines = Text.numbered b.firstLine b.lines ∧
        b.contents = ⟨.ofList (as.map Assignment.entry), [], Warning.ofRepeats [] as⟩ :=
  ⟨⟨[" n = 1".toList, [], "pod =[ '='".toList, " ".toList, "  ] ".toList, "n = m=2".toList], 4⟩,
    rfl, rfl, by decide, contents_of_onlyRepeats (by decide)⟩

end HeadJob
