import Mathlib.Tactic.SplitIfs
import HeadJob.Launch.Script
import HeadJob.Text.Basic

/-!
The words that a shell reads in the text of the head container.

A blank ends a word, a semicolon ends a command, and what stands between single quotes is taken as
it is and joined to what it touches.  A text has no tokens here if that does not settle them: if a
quote stays open, or if a character stands outside of quotes that is an operator, begins a comment
or an expansion, or quotes in another way.

The launch directory is written between quotes and is one word unless it holds a quote itself.  The
arguments are written as they are, so one is one word only if it needs no quotes.
-/

namespace HeadJob

namespace Shell

inductive Token where
  | word (text : String)
  | separator
  deriving DecidableEq, Repr

/-- The characters that have to be quoted to stand for themselves. -/
def special : Text := "|&;<>()$`\\\"' \t\n".toList

/-- A word that is read as it stands.  A comment would begin with the number sign. -/
structure IsPlain (w : Text) : Prop where
  ne_nil : w ≠ []
  no_comment : w.head? ≠ some '#'
  no_special : ∀ c ∈ w, c ∉ special

instance : DecidablePred IsPlain := fun w =>
  decidable_of_iff (w ≠ [] ∧ w.head? ≠ some '#' ∧ w.all (· ∉ special) = true)
    ⟨fun ⟨h, hc, hs⟩ => ⟨h, hc, by simpa using hs⟩, fun ⟨h, hc, hs⟩ => ⟨h, hc, by simpa using hs⟩⟩

/-- What has been read of a text: the tokens before, the word that has begun, and whether a quote is
open. -/
structure Reader where
  done : List Token
  word : Option Text
  quoted : Bool
  deriving DecidableEq, Repr

namespace Reader

def start : Reader := ⟨[], none, false⟩

def endWord (r : Reader) : Reader :=
  match r.word with
  | none => r
  | some w => { r with done := r.done ++ [.word (String.ofList w)], word := none }

/-- A character more of the word, which it begins if none has. -/
def push (r : Reader) (c : Char) : Reader := { r with word := some (r.word.getD [] ++ [c]) }

def read (r : Reader) (c : Char) : Option Reader :=
  if r.quoted then
    some (if c = '\'' then { r with quoted := false } else r.push c)
  else if c = '\'' then some { r with word := some (r.word.getD []), quoted := true }
  else if c = ' ' ∨ c = '\t' then some r.endWord
  else if c = ';' then some { r.endWord with done := r.endWord.done ++ [.separator] }
  else if c ∈ special ∨ (r.word = none ∧ c = '#') then none
  else some (r.push c)

/-- The tokens, unless a quote is still open. -/
def finish (r : Reader) : Option (List Token) := if r.quoted then none else some r.endWord.done

end Reader

/-- The tokens of a text, unless it goes beyond words, separators and single quotes. -/
def tokens (s : String) : Option (List Token) :=
  (s.toList.foldlM Reader.read Reader.start).bind Reader.finish

/-! ## What the words of a text are like -/

namespace Reader

variable {r r' : Reader} {c : Char} {t : Text}

/-- Every word that was read, and the one that has begun, has a property. -/
structure Words (P : Text → Prop) (r : Reader) : Prop where
  done : ∀ w, Token.word w ∈ r.done → P w.toList
  word : ∀ w ∈ r.word, P w

@[simp] theorem quoted_endWord (r : Reader) : r.endWord.quoted = r.quoted := by
  unfold endWord
  split <;> rfl

theorem Words.start {P : Text → Prop} : Reader.start.Words P := ⟨nofun, nofun⟩

theorem Words.endWord {P : Text → Prop} (h : r.Words P) : r.endWord.Words P := by
  unfold Reader.endWord
  cases hbegun : r.word with
  | none => exact h
  | some v =>
    refine ⟨fun w hw => ?_, nofun⟩
    rcases List.mem_append.1 hw with hdone | hword
    · exact h.done w hdone
    · cases List.mem_singleton.1 hword
      rw [String.toList_ofList]
      exact h.word v hbegun

theorem Words.separate {P : Text → Prop} (h : r.Words P) :
    ({ r with done := r.done ++ [.separator] } : Reader).Words P :=
  ⟨fun w hw => h.done w (by simpa using hw), h.word⟩

theorem Words.push {P : Text → Prop} (h : r.Words P) (hP : P (r.word.getD [] ++ [c])) :
    (r.push c).Words P :=
  ⟨h.done, by rintro w ⟨⟩; exact hP⟩

/-- What one character preserves is preserved by a text. -/
theorem preserved {P : Reader → Prop}
    (hstep : ∀ c ∈ t, ∀ r r', P r → r.read c = some r' → P r') (hr : P r)
    (h : t.foldlM read r = some r') : P r' := by
  induction t generalizing r with
  | nil => cases h; exact hr
  | cons c t ih =>
    obtain ⟨r₁, hread, hrest⟩ := Option.bind_eq_some_iff.1 h
    exact ih (fun c hc => hstep c (List.mem_cons_of_mem _ hc))
      (hstep c List.mem_cons_self r r₁ hr hread) hrest

/-- A quote is never part of a word. -/
theorem Words.read_quoteless (h : r.Words ('\'' ∉ ·)) (hread : r.read c = some r') :
    r'.Words ('\'' ∉ ·) := by
  have hbegun : '\'' ∉ r.word.getD [] := by
    cases hw : r.word with
    | none => exact List.not_mem_nil
    | some w => exact h.word w hw
  have hpush (hc : c ≠ '\'') : (r.push c).Words ('\'' ∉ ·) :=
    h.push (by simpa [hbegun] using Ne.symm hc)
  unfold read at hread
  split_ifs at hread with hquoted hclose hopen hblank hsep hspecial <;> cases hread
  next => exact ⟨h.done, h.word⟩
  next => exact hpush hclose
  next => exact ⟨h.done, by rintro w ⟨⟩; exact hbegun⟩
  next => exact h.endWord
  next => exact h.endWord.separate
  next => exact hpush hopen

/-- Outside of quotes every word is plain. -/
def Bare (r : Reader) : Prop := r.quoted = false ∧ r.Words IsPlain

theorem Bare.read (h : r.Bare) (hc : c ≠ '\'') (hread : r.read c = some r') : r'.Bare := by
  obtain ⟨hquoted, hwords⟩ := h
  unfold Reader.read at hread
  rw [hquoted] at hread
  simp only [Bool.false_eq_true, if_false, if_neg hc] at hread
  split_ifs at hread with hblank hsep hspecial <;> cases hread
  next => exact ⟨by rwa [quoted_endWord], hwords.endWord⟩
  next => exact ⟨by rwa [quoted_endWord], hwords.endWord.separate⟩
  next =>
    simp only [not_or, not_and] at hspecial
    refine ⟨hquoted, hwords.push ?_⟩
    cases hw : r.word with
    | none => exact ⟨by simp, by simpa using hspecial.2 hw, by simpa using hspecial.1⟩
    | some w =>
      have hplain := hwords.word w hw
      refine ⟨by simp, ?_, ?_⟩
      · obtain ⟨d, t, rfl⟩ := List.exists_cons_of_ne_nil hplain.ne_nil
        exact hplain.no_comment
      · intro d hd
        rcases List.mem_append.1 hd with hd | hd
        · exact hplain.no_special d hd
        · rw [List.mem_singleton.1 hd]
          exact hspecial.1

end Reader

theorem words_of_tokens {P : Text → Prop} {s : String} {ts : List Token} {r : Reader}
    (hread : s.toList.foldlM Reader.read Reader.start = some r) (hr : r.Words P)
    (h : tokens s = some ts) : ∀ w, Token.word w ∈ ts → P w.toList := by
  unfold tokens at h
  rw [hread, Option.bind_some, Reader.finish] at h
  split at h
  · cases h
  · cases h
    exact hr.endWord.done

theorem quote_not_mem {s w : String} {ts : List Token} (h : tokens s = some ts)
    (hw : Token.word w ∈ ts) : '\'' ∉ w.toList := by
  obtain ⟨r, hread, -⟩ := Option.bind_eq_some_iff.1 h
  have hwords : r.Words ('\'' ∉ ·) :=
    Reader.preserved (fun c _ r r' => Reader.Words.read_quoteless) Reader.Words.start hread
  exact words_of_tokens hread hwords h w hw

/-- Without quotes only plain words can be written. -/
theorem isPlain_of_tokens {s w : String} {ts : List Token} (hs : '\'' ∉ s.toList)
    (h : tokens s = some ts) (hw : Token.word w ∈ ts) : IsPlain w.toList := by
  obtain ⟨r, hread, -⟩ := Option.bind_eq_some_iff.1 h
  have hbare : r.Bare :=
    Reader.preserved (fun c hc r r' hr => hr.read (by rintro rfl; exact hs hc))
      ⟨rfl, Reader.Words.start⟩ hread
  exact words_of_tokens hread hbare.2 h w hw

/-! ## Reading what was written -/

namespace Reader

variable {done : List Token}

theorem foldlM_append_of {s t : Text} {r r' : Reader} (h : s.foldlM read r = some r') :
    (s ++ t).foldlM read r = t.foldlM read r' := by
  rw [List.foldlM_append, h, Option.bind_eq_bind, Option.bind_some]

theorem foldlM_quoted {t : Text} (ht : '\'' ∉ t) (w : Text) :
    t.foldlM read ⟨done, some w, true⟩ = some ⟨done, some (w ++ t), true⟩ := by
  induction t generalizing w with
  | nil => simp
  | cons c t ih =>
    obtain ⟨hc, ht⟩ : '\'' ≠ c ∧ '\'' ∉ t := by simpa using ht
    have hread : read ⟨done, some w, true⟩ c = some ⟨done, some (w ++ [c]), true⟩ := by
      simp [read, push, hc.symm]
    rw [List.foldlM_cons, hread, Option.bind_eq_bind, Option.bind_some, ih ht, List.append_assoc,
      List.singleton_append]

theorem read_of_not_special {c : Char} (hc : c ∉ special) {word : Option Text}
    (hword : word = none → c ≠ '#') :
    read ⟨done, word, false⟩ c = some ⟨done, some (word.getD [] ++ [c]), false⟩ := by
  have hne {d : Char} (hd : d ∈ special) : c ≠ d := by rintro rfl; exact hc hd
  simp only [read, push, Bool.false_eq_true, if_false, if_neg (hne (d := '\'') (by decide)),
    if_neg (not_or.2 ⟨hne (d := ' ') (by decide), hne (d := '\t') (by decide)⟩),
    if_neg (hne (d := ';') (by decide)), if_neg (not_or.2 ⟨hc, not_and.2 hword⟩)]

theorem foldlM_begun {t : Text} (ht : ∀ c ∈ t, c ∉ special) (w : Text) :
    t.foldlM read ⟨done, some w, false⟩ = some ⟨done, some (w ++ t), false⟩ := by
  induction t generalizing w with
  | nil => simp
  | cons c t ih =>
    have hread : read ⟨done, some w, false⟩ c = some ⟨done, some (w ++ [c]), false⟩ :=
      read_of_not_special (ht c List.mem_cons_self) nofun
    rw [List.foldlM_cons, hread, Option.bind_eq_bind, Option.bind_some,
      ih (fun d hd => ht d (List.mem_cons_of_mem _ hd)), List.append_assoc,
      List.singleton_append]

theorem foldlM_plain {w : Text} (h : IsPlain w) :
    w.foldlM read ⟨done, none, false⟩ = some ⟨done, some w, false⟩ := by
  cases w with
  | nil => exact absurd rfl h.ne_nil
  | cons c t =>
    have hc : c ≠ '#' := by simpa using h.no_comment
    have hread : read ⟨done, none, false⟩ c = some ⟨done, some [c], false⟩ :=
      read_of_not_special (h.no_special c List.mem_cons_self) fun _ => hc
    rw [List.foldlM_cons, hread, Option.bind_eq_bind, Option.bind_some,
      foldlM_begun fun d hd => h.no_special d (List.mem_cons_of_mem _ hd)]
    simp

/-- Plain words with blanks between them are read one by one. -/
theorem finish_foldlM_intercalate {ws : List String} (h : ∀ w ∈ ws, IsPlain w.toList) :
    ((" ".intercalate ws).toList.foldlM read ⟨done, none, false⟩).bind finish =
      some (done ++ ws.map .word) := by
  induction ws generalizing done with
  | nil => simp [finish, endWord]
  | cons w ws ih =>
    obtain ⟨hw, hws⟩ := List.forall_mem_cons.1 h
    cases ws with
    | nil =>
      rw [String.intercalate_singleton, foldlM_plain hw]
      simp [finish, endWord]
    | cons v ws =>
      have hblank : " ".toList.foldlM read ⟨done, some w.toList, false⟩ =
          some ⟨done ++ [.word (String.ofList w.toList)], none, false⟩ := rfl
      rw [String.intercalate_cons_cons, String.toList_append, String.toList_append,
        List.append_assoc, foldlM_append_of (foldlM_plain hw), foldlM_append_of hblank, ih hws, String.ofList_toList,
        List.append_assoc, List.singleton_append]
      rfl

end Reader

/-! ## The text of the head container -/

/-- The tokens of a script that enters a directory, making it first, and copies a file there. -/
def initTokens (launchDir : String) : List Token :=
  [.word "mkdir", .word "-p", .word launchDir, .separator, .word "cd", .word launchDir, .separator,
    .word "cp", .word "/etc/nextflow/nextflow.config", .word "."]

/-- The tokens of a command that runs that script and then Nextflow. -/
def commandTokens (arguments : List String) : List Token :=
  [.word "source", .word "/etc/nextflow/init.sh", .separator, .word "nextflow", .word "run"] ++
    arguments.map .word

theorem tokens_initScript {launchDir : String} (h : '\'' ∉ launchDir.toList) :
    tokens (initScript launchDir) = some (initTokens launchDir) := by
  have hmake : "mkdir -p '".toList.foldlM Reader.read Reader.start =
      some ⟨[.word "mkdir", .word "-p"], some [], true⟩ := by decide
  have hdir (done : List Token) :
      launchDir.toList.foldlM Reader.read ⟨done, some [], true⟩ =
        some ⟨done, some launchDir.toList, true⟩ := Reader.foldlM_quoted h []
  have henter (done : List Token) (w : Text) :
      "'; cd '".toList.foldlM Reader.read ⟨done, some w, true⟩ =
        some ⟨done ++ [.word (String.ofList w)] ++ [.separator] ++ [.word "cd"], some [], true⟩ :=
    rfl
  have hcopy (done : List Token) (w : Text) :
      "'; cp ".toList.foldlM Reader.read ⟨done, some w, true⟩ =
        some ⟨done ++ [.word (String.ofList w)] ++ [.separator] ++ [.word "cp"], none, false⟩ :=
    rfl
  have hfile (done : List Token) :
      ((configMountPath.toList ++ "/nextflow.config .".toList).foldlM Reader.read
          ⟨done, none, false⟩).bind Reader.finish =
        some (done ++ [.word "/etc/nextflow/nextflow.config", .word "."]) := by
    have hplain : ∀ w ∈ ["/etc/nextflow/nextflow.config", "."], IsPlain w.toList := by decide
    exact Reader.finish_foldlM_intercalate hplain
  unfold tokens initScript
  rw [String.toList_append, String.toList_append, String.toList_append, String.toList_append,
    String.toList_append, String.toList_append]
  simp only [List.append_assoc]
  rw [Reader.foldlM_append_of hmake, Reader.foldlM_append_of (hdir _),
    Reader.foldlM_append_of (henter _ _), Reader.foldlM_append_of (hdir _),
    Reader.foldlM_append_of (hcopy _ _), hfile, String.ofList_toList]
  rfl

theorem getElem?_headCommand (arguments : List String) :
    (headCommand arguments)[2]? =
      some ("source /etc/nextflow/init.sh; nextflow run " ++ " ".intercalate arguments) := rfl

theorem tokens_headCommand {arguments : List String} (h : ∀ a ∈ arguments, IsPlain a.toList) :
    (headCommand arguments)[2]?.bind tokens = some (commandTokens arguments) := by
  have hsource :
      "source /etc/nextflow/init.sh; nextflow run ".toList.foldlM Reader.read Reader.start =
        some ⟨[.word "source", .word "/etc/nextflow/init.sh", .separator, .word "nextflow",
          .word "run"], none, false⟩ := by decide
  rw [getElem?_headCommand, Option.bind_some, tokens, String.toList_append,
    Reader.foldlM_append_of hsource]
  exact Reader.finish_foldlM_intercalate h

theorem quote_not_mem_intercalate {ws : List String} (h : ∀ w ∈ ws, '\'' ∉ w.toList) :
    '\'' ∉ (" ".intercalate ws).toList := by
  induction ws with
  | nil => decide
  | cons w ws ih =>
    obtain ⟨hw, hws⟩ := List.forall_mem_cons.1 h
    cases ws with
    | nil => simpa using hw
    | cons v ws => simpa [hw] using ih hws

/-- The launch directory is delivered exactly if it holds no quote, and the arguments are delivered
exactly if none of them needs quotes. -/
theorem tokens_intact_iff (launchDir : String) (arguments : List String) :
    (tokens (initScript launchDir) = some (initTokens launchDir) ↔ '\'' ∉ launchDir.toList) ∧
      ((headCommand arguments)[2]?.bind tokens = some (commandTokens arguments) ↔
        ∀ a ∈ arguments, IsPlain a.toList) := by
  refine ⟨⟨fun h => ?_, tokens_initScript⟩, ⟨fun h a ha => ?_, tokens_headCommand⟩⟩
  · exact quote_not_mem h (by simp [initTokens])
  · have hmem {b : String} (hb : b ∈ arguments) : Token.word b ∈ commandTokens arguments :=
      List.mem_append_right _ (List.mem_map_of_mem hb)
    rw [getElem?_headCommand, Option.bind_some] at h
    refine isPlain_of_tokens ?_ h (hmem ha)
    rw [String.toList_append, List.mem_append, not_or]
    exact ⟨by decide, quote_not_mem_intercalate fun b hb => quote_not_mem h (hmem hb)⟩

/-- Quotes around a quote end early: the script makes one directory with a long name and enters none.
An argument with a blank is handed on as two. -/
theorem tokens_not_intact :
    tokens (initScript "/work/it's") = some [.word "mkdir", .word "-p",
        .word "/work/its; cd /work/its", .separator, .word "cp",
        .word "/etc/nextflow/nextflow.config", .word "."] ∧
      (headCommand ["-params-file", "my params.json"])[2]?.bind tokens =
        some (commandTokens ["-params-file", "my", "params.json"]) := by
  decide

end Shell
end HeadJob
