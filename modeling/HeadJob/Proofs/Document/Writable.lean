import HeadJob.Config.Document
import HeadJob.Proofs.Config.Body
import HeadJob.Proofs.Config.Written

/-!
Documents that can be written as text.

What was read from a text can be written, and the lines of what is written are the lines of the
document: those in front of the block, the block, and those after it.
-/

namespace HeadJob

/-- The search for a block of this name passes over the lines and ends at the top level. -/
def Header.Leads (name : Text) (before : List Text) : Prop :=
  ∃ s, Search.after? name {} 0 before = some s ∧ s.depth = 0 ∧ (name = [] → s.waiting = none)

namespace Document

def blockLines (d : Document) : List Text :=
  (d.settings.entries.map fun e => Text.assignmentLine e.1 e.2) ++ d.nested

/-- Each part of the document stands on the lines it is written on, which lose a carriage return at
their end. -/
structure Lined (d : Document) : Prop where
  name : ∀ c ∈ d.name, Placeholder.isKeyChar c = true
  block : ∀ l ∈ d.blockLines, '\n' ∉ l
  before : ∀ l ∈ d.before, '\n' ∉ l
  leads : Header.Leads d.name (d.before.map Text.chomp)
  after : ∀ l ∈ d.after, '\n' ∉ l

structure Writable (d : Document) : Prop where
  name : ∀ c ∈ d.name, Placeholder.isKeyChar c = true
  settings : ∀ e ∈ d.settings.entries, e.1.IsKey ∧ e.2.IsValue
  nested : ∀ t ∈ d.nested, t.IsCarried
  before : ∀ l ∈ d.before, '\n' ∉ l
  leads : Header.Leads d.name (d.before.map Text.chomp)
  after : ∀ l ∈ d.after, '\n' ∉ l

variable {d : Document}

theorem Writable.lined (h : d.Writable) : d.Lined where
  name := h.name
  block := by
    refine List.forall_mem_append.2 ⟨List.forall_mem_map.2 fun e he => ?_, fun t ht => ?_⟩
    · exact (Text.isLine_assignmentLine (h.settings e he).1 (h.settings e he).2).1
    · exact (h.nested t ht).noBreak
  before := h.before
  leads := h.leads
  after := h.after

/-! ## What was read can be written -/

theorem notMem_atHeader {c : Char} {lines : List Text} (hlines : ∀ l ∈ lines, c ∉ l)
    (header : Header) :
    (∀ l ∈ (Excerpt.atHeader lines header).body.lines, c ∉ l ∧ l.stripComment = l) ∧
      ∀ l ∈ (Excerpt.atHeader lines header).after, c ∉ l := by
  obtain ⟨source, hsource, haround⟩ : ∃ source, (∀ raw ∈ source, c ∉ raw) ∧
      Excerpt.atHeader lines header =
        Excerpt.around (lines.take header.start) header.line source := by
    rw [Excerpt.atHeader_eq_around]
    refine ⟨_, fun raw hraw => ?_, rfl⟩
    cases hdrop : lines.drop header.line with
    | nil => rw [hdrop] at hraw; cases hraw
    | cons first rest =>
      have hmem : ∀ l ∈ first :: rest, c ∉ l := by
        rw [← hdrop]
        exact fun l hl => hlines l ((List.drop_sublist _ _).subset hl)
      rw [hdrop] at hraw
      rcases List.mem_cons.1 hraw with rfl | hraw
      · exact fun h => hmem first List.mem_cons_self ((List.drop_sublist _ _).subset h)
      · exact hmem raw (List.mem_cons_of_mem first hraw)
  rw [haround]
  refine ⟨fun l hl => ?_, fun l hl => ?_⟩
  · rw [Excerpt.body_around] at hl
    obtain ⟨hbare, raw, hraw, hpre⟩ := Ending.read_lines hl
    exact ⟨fun h => hsource raw hraw (hpre.subset h), hbare⟩
  · obtain ⟨raw, hraw, hsuf⟩ := Excerpt.after_around hl
    exact fun h => hsource raw hraw (hsuf.subset h)

theorem tidy_finish {r : BodyReader} (h : r.Tidy) :
    (∀ e ∈ r.finish.settings.entries, e.1.IsKey ∧ e.2.IsValue) ∧
      ∀ t ∈ r.finish.nested, t.IsCarried := by
  unfold BodyReader.finish
  split
  · exact ⟨h.settings, h.nested⟩
  · refine ⟨h.settings, List.forall_mem_append.2 ⟨h.nested, fun t ht => ?_⟩⟩
    rw [List.eq_of_mem_replicate ht]
    exact ⟨by decide, rfl, by decide, rfl⟩
  · exact ⟨h.settings, h.nested⟩

variable {name text : Text}

theorem name_of_ofText (h : ofText name text = .ok d) : d.name = name := by
  unfold ofText at h
  split at h
  · cases h
  · cases h
    rfl

theorem ofFile_eq_ok_iff {file : Except ReadError ByteArray} :
    ofFile name file = .ok d ↔
      ∃ bytes content, file = .ok bytes ∧ String.fromUTF8? bytes = some content ∧
        ofText name content.toList = .ok d := by
  unfold ofFile
  split
  · simp
  · next bytes =>
    split
    · next h => simp [h]
    · next content h => simp [h]

theorem name_of_ofFile {file : Except ReadError ByteArray} (h : ofFile name file = .ok d) :
    d.name = name := by
  obtain ⟨_, _, -, -, htext⟩ := ofFile_eq_ok_iff.1 h
  exact name_of_ofText htext

theorem ofFile_toUTF8 (name : Text) (content : String) :
    ofFile name (.ok content.toUTF8) = ofText name content.toList := by
  have h : String.fromUTF8? content.toUTF8 = some content := dif_pos content.isValidUTF8
  simp only [ofFile, h]

theorem before_of_ofText (h : ofText name text = .ok d) :
    d.before = text.lines.take d.before.length ∧ Header.Leads name d.before := by
  unfold ofText at h
  split at h
  · cases h
  · next excerpt hexcerpt =>
    cases h
    obtain ⟨header, hheader, rfl⟩ := Excerpt.ofLines_eq_ok hexcerpt
    have hbefore : (Excerpt.atHeader text.lines header).before = text.lines.take header.start := by
      rw [Excerpt.atHeader_eq_around, Excerpt.before_around]
    dsimp only
    rw [hbefore]
    exact ⟨(List.prefix_iff_eq_take.1 (List.take_prefix _ _)), Header.after?_take_start hheader⟩

/-- A line of carriage returns is taken for the name of a block without one, and so what was read can
be written if there is a name or no such line. -/
theorem writable_of_ofText (hname : ∀ c ∈ name, Placeholder.isKeyChar c = true)
    (h : ofText name text = .ok d) (hbefore : name ≠ [] ∨ ∀ l ∈ d.before, l.IsLine) :
    d.Writable := by
  obtain ⟨htake, hleads⟩ := before_of_ofText h
  have hbreak : ∀ l ∈ d.before, '\n' ∉ l := by
    rw [htake]
    exact fun l hl => Text.notMem_of_mem_lines ((List.take_sublist _ _).subset hl)
  have hchomped : Header.Leads name (d.before.map Text.chomp) := by
    rcases hbefore with hne | hbefore
    · obtain ⟨s, hs, hend⟩ := hleads
      exact ⟨s, by rw [Header.Search.after?_map_chomp hne, hs], hend⟩
    · rwa [Text.map_chomp hbefore]
  rw [← name_of_ofText h] at hname hchomped
  unfold ofText at h
  split at h
  · cases h
  · next excerpt hexcerpt =>
    cases h
    obtain ⟨header, hheader, rfl⟩ := Excerpt.ofLines_eq_ok hexcerpt
    obtain ⟨hbody, hafter⟩ := notMem_atHeader (fun _ => Text.notMem_of_mem_lines) header
    obtain ⟨hsettings, hnested⟩ := tidy_finish (BodyReader.Tidy.empty.feedAll hbody _)
    exact ⟨hname, hsettings, hnested, hbreak, hchomped, hafter⟩

/-- Without carriage returns in the text there is none at the end of a line that is kept. -/
theorem isLine_of_ofText (htext : '\r' ∉ text) (h : ofText name text = .ok d) :
    (∀ l ∈ d.before, l.IsLine) ∧ ∀ l ∈ d.after, l.IsLine := by
  constructor
  · rw [(before_of_ofText h).1]
    exact fun l hl => Text.isLine_of_mem_lines htext ((List.take_sublist _ _).subset hl)
  · unfold ofText at h
    split at h
    · cases h
    · next excerpt hexcerpt =>
      cases h
      obtain ⟨header, -, rfl⟩ := Excerpt.ofLines_eq_ok hexcerpt
      have hbreak := (notMem_atHeader (fun _ => Text.notMem_of_mem_lines (t := text)) header).2
      have hreturn := (notMem_atHeader
        (fun _ hl hc => htext (Text.mem_of_mem_lines (t := text) hl hc)) header).2
      exact fun l hl => ⟨hbreak l hl, fun hlast => hreturn l hl (List.mem_of_getLast? hlast)⟩

/-! ## What is written -/

def indented (l : Text) : Text := "   ".toList ++ l.chomp

/-- The lines from the header of the block on, without the header itself. -/
def laterLines (d : Document) : List Text :=
  d.blockLines.map indented ++ ['}'] :: (Text.join ['\n'] d.after).lines

theorem render_eq_unlines (d : Document) :
    d.render = Text.unlines (d.before ++ Header.written d.name ::
      (d.blockLines.map ("   ".toList ++ ·) ++ [['}']])) ++ Text.join ['\n'] d.after := by
  have hentries : (d.settings.entries.map fun e => "   ".toList ++ e.1 ++ " = ".toList ++ e.2) =
      (d.settings.entries.map fun e => Text.assignmentLine e.1 e.2).map ("   ".toList ++ ·) := by
    rw [List.map_map]
    refine List.map_congr_left fun e _ => ?_
    simp [Text.assignmentLine]
  rw [render, Settings.render, hentries]
  simp only [blockLines, Text.unlines, Header.written, List.map_append, List.flatMap_append,
    List.flatMap_cons, List.flatMap_nil, List.append_assoc, List.append_nil,
    List.cons_append, List.nil_append]

theorem isLine_written (hname : ∀ c ∈ name, Placeholder.isKeyChar c = true) :
    (Header.written name).IsLine := by
  refine ⟨fun hmem => ?_, by simp [Header.written]⟩
  rcases List.mem_append.1 hmem with h | h
  · exact absurd (hname _ h) (by decide)
  · exact absurd h (by decide)

theorem chomp_indent (l : Text) : Text.chomp ("   ".toList ++ l) = indented l := by
  cases l with
  | nil => decide
  | cons c l =>
    show Text.chomp (' ' :: ' ' :: ' ' :: c :: l) = _
    rw [Text.chomp_cons_cons, Text.chomp_cons_cons, Text.chomp_cons_cons]
    rfl

theorem lines_render (hd : d.Lined) :
    d.render.lines = d.before.map Text.chomp ++ Header.written d.name :: d.laterLines := by
  have hblock : ∀ l ∈ d.blockLines.map ("   ".toList ++ ·) ++ [['}']], '\n' ∉ l := by
    refine List.forall_mem_append.2 ⟨List.forall_mem_map.2 fun l hl hmem => ?_,
      List.forall_mem_singleton.2 (by decide)⟩
    exact (List.mem_append.1 hmem).elim (fun h => absurd h (by decide)) (hd.block l hl)
  have hlines : ∀ l ∈ d.before ++ Header.written d.name ::
      (d.blockLines.map ("   ".toList ++ ·) ++ [['}']]), '\n' ∉ l :=
    List.forall_mem_append.2 ⟨hd.before, List.forall_mem_cons.2 ⟨(isLine_written hd.name).1, hblock⟩⟩
  have hindented : (d.blockLines.map ("   ".toList ++ ·)).map Text.chomp =
      d.blockLines.map indented := by
    rw [List.map_map]
    exact List.map_congr_left fun l _ => chomp_indent l
  have hbrace : Text.chomp ['}'] = ['}'] := by decide
  rw [render_eq_unlines, Text.lines_unlines_append hlines, laterLines, List.map_append,
    List.map_cons, List.map_append, hindented, (isLine_written hd.name).chomp, List.map_singleton,
    hbrace]
  simp

def excerpt (d : Document) : Excerpt :=
  .around (d.before.map Text.chomp) d.before.length ([] :: d.laterLines)

/-- A written document can always be read. -/
theorem ofText_render (hd : d.Lined) :
    ofText d.name d.render = .ok
      { name := d.name
        settings := d.excerpt.body.contents.settings
        nested := d.excerpt.body.contents.nested
        before := d.before.map Text.chomp
        after := d.excerpt.after
        warnings := d.excerpt.warnings ++ d.excerpt.body.contents.warnings } := by
  obtain ⟨s, hs, hdepth, hwaiting⟩ := hd.leads
  rw [ofText, lines_render hd, Excerpt.ofLines_written hd.name hs hdepth hwaiting]
  show Except.ok _ = Except.ok _
  rw [Excerpt.before_around, List.length_map]
  rfl

end Document
end HeadJob
