import HeadJob.Config.Volume
import HeadJob.Proofs.Text.Match

/-!
The texts that are records of a volume, and where they are found.

A record is told by its own characters, whatever follows it.  It is found wherever it stands in a
text, if its volume has a name that ends no record which begins before it.
-/

namespace HeadJob
namespace Volume

open Text (isBlank isAllBlank)

/-! ## Readers -/

theorem dropChar?_eq_some_iff {c : Char} (hc : isBlank c = false) {t rest : Text} :
    dropChar? c t = some rest ↔ ∃ b, isAllBlank b = true ∧ t = b ++ c :: rest := by
  constructor
  · intro h
    obtain ⟨b, hb, hbt⟩ := Text.exists_blanks_append_trimStart t
    unfold dropChar? at h
    split at h
    · cases h
    · next d r hd =>
      split at h
      · next hdc =>
        cases h
        exact ⟨b, hb, by rw [← hbt, hd, hdc]⟩
      · cases h
  · rintro ⟨b, hb, rfl⟩
    rw [dropChar?, Text.trimStart_append_of_isAllBlank hb, Text.trimStart_cons hc]
    simp

theorem dropWord?_eq_some_iff {w t rest : Text} :
    dropWord? w t = some rest ↔ ∃ u, u.map Char.toLower = w ∧ t = u ++ rest := by
  induction w generalizing t with
  | nil =>
    rw [dropWord?, Option.some_inj]
    constructor
    · rintro rfl
      exact ⟨[], rfl, rfl⟩
    · rintro ⟨u, hu, rfl⟩
      rw [List.map_eq_nil_iff.1 hu]
      rfl
  | cons c w ih =>
    cases t with
    | nil =>
      refine ⟨(fun h => nomatch h), fun ⟨u, hu, h⟩ => ?_⟩
      rw [List.nil_eq, List.append_eq_nil_iff] at h
      rw [h.1] at hu
      cases hu
    | cons d t =>
      rw [dropWord?]
      split
      · next hd =>
        rw [ih]
        constructor
        · rintro ⟨u, hu, rfl⟩
          exact ⟨d :: u, by rw [List.map_cons, hd, hu], rfl⟩
        · rintro ⟨u, hu, h⟩
          cases u with
          | nil => cases hu
          | cons e u =>
            injection hu with _ hu
            injection h with _ h
            exact ⟨u, hu, h⟩
      · next hd =>
        refine ⟨(fun h => nomatch h), fun ⟨u, hu, h⟩ => ?_⟩
        cases u with
        | nil => cases hu
        | cons e u =>
          injection hu with he _
          injection h with hde _
          rw [← hde] at he
          exact absurd he hd

theorem isBlank_of_isQuoteMark {c : Char} (h : isQuoteMark c = true) : isBlank c = false := by
  simp only [isQuoteMark, Bool.or_eq_true, beq_iff_eq] at h
  rcases h with rfl | rfl <;> decide

def IsString (s : Text) : Prop := s ≠ [] ∧ ∀ c ∈ s, isQuoteMark c = false

theorem readString?_eq_some_iff {t s rest : Text} :
    readString? t = some (s, rest) ↔
      ∃ b q q', isAllBlank b = true ∧ isQuoteMark q = true ∧ isQuoteMark q' = true ∧
        IsString s ∧ t = b ++ q :: (s ++ q' :: rest) := by
  constructor
  · intro h
    obtain ⟨b, hb, hbt⟩ := Text.exists_blanks_append_trimStart t
    unfold readString? at h
    split at h
    · cases h
    · next q r hq =>
      split at h
      · next hmark =>
        have hsplit := List.takeWhile_append_dropWhile (p := fun c => !isQuoteMark c) (l := r)
        split at h
        · next c s' q' rest' htake hdrop =>
          cases h
          rw [htake, hdrop] at hsplit
          have hq' : isQuoteMark q' = true := by
            have hhead := List.head?_dropWhile_not (fun c => !isQuoteMark c) r
            rw [hdrop] at hhead
            simpa using hhead
          refine ⟨b, q, q', hb, hmark, hq', ⟨List.cons_ne_nil c s', fun d hd => ?_⟩, ?_⟩
          · rw [← htake] at hd
            simpa using List.mem_takeWhile_imp hd
          · rw [← hbt, hq, ← hsplit]
        · cases h
      · cases h
  · rintro ⟨b, q, q', hb, hq, hq', ⟨hne, hs⟩, rfl⟩
    have hpos : ∀ c ∈ s, (!isQuoteMark c) = true := fun c hc => by rw [hs c hc]; rfl
    obtain ⟨c, s', rfl⟩ := List.exists_cons_of_ne_nil hne
    rw [readString?, Text.trimStart_append_of_isAllBlank hb,
      Text.trimStart_cons (isBlank_of_isQuoteMark hq)]
    simp only [hq, if_true]
    rw [List.takeWhile_append_of_pos hpos, List.dropWhile_append_of_pos hpos,
      List.takeWhile_cons_of_neg (by simp [hq']), List.dropWhile_cons_of_neg (by simp [hq'])]
    simp

/-! ## Fields -/

theorem isBlank_of_isAlpha {c : Char} (h : c.isAlpha = true) : isBlank c = false := by
  have hrange : 65 ≤ c.toNat ∧ c.toNat ≤ 90 ∨ 97 ≤ c.toNat ∧ c.toNat ≤ 122 := by
    delta Char.isAlpha Char.isUpper Char.isLower at h
    simpa [UInt32.le_iff_toNat_le] using h
  simp only [isBlank, Bool.or_eq_false_iff, Bool.and_eq_false_iff, decide_eq_false_iff_not,
    beq_eq_false_iff_ne]
  omega

theorem isAlpha_of_isLower_toLower {c : Char} (h : c.toLower.isLower = true) :
    c.isAlpha = true := by
  unfold Char.toLower at h
  split at h
  · next hupper =>
    delta Char.isAlpha Char.isUpper
    simp only [Bool.or_eq_true, decide_eq_true_eq]
    exact .inl hupper
  · delta Char.isAlpha
    rw [h, Bool.or_true]

/-- The name of a field: letters in lower case. -/
def IsName (name : Text) : Prop := name ≠ [] ∧ name.all Char.isLower = true

/-- What stands before the string of a field `name: 'string'`. -/
inductive IsLabel (name : Text) : Text → Prop
  | intro (b w b' b'' : Text) (hb : isAllBlank b = true) (hw : w.map Char.toLower = name)
      (hb' : isAllBlank b' = true) (hb'' : isAllBlank b'' = true) :
      IsLabel name (b ++ w ++ b' ++ ':' :: b'')

variable {name : Text}

theorem IsName.isAlpha (hname : IsName name) {w : Text} (hw : w.map Char.toLower = name) :
    ∀ c ∈ w, c.isAlpha = true := by
  intro c hc
  refine isAlpha_of_isLower_toLower (List.all_eq_true.1 hname.2 _ ?_)
  rw [← hw]
  exact List.mem_map_of_mem hc

theorem readField?_eq_some_iff (hname : IsName name) {t s rest : Text} :
    readField? name t = some (s, rest) ↔
      ∃ g q q', IsLabel name g ∧ isQuoteMark q = true ∧ isQuoteMark q' = true ∧ IsString s ∧
        t = g ++ q :: (s ++ q' :: rest) := by
  simp only [readField?, Option.bind_eq_bind, Option.bind_eq_some_iff, dropWord?_eq_some_iff,
    dropChar?_eq_some_iff (show isBlank ':' = false by decide), readString?_eq_some_iff]
  constructor
  · rintro ⟨_, ⟨w, hw, hdrop⟩, _, ⟨b', hb', rfl⟩, b'', q, q', hb'', hq, hq', hs, rfl⟩
    obtain ⟨b, hb, hbt⟩ := Text.exists_blanks_append_trimStart t
    refine ⟨_, q, q', .intro b w b' b'' hb hw hb' hb'', hq, hq', hs, ?_⟩
    rw [← hbt, hdrop]
    simp
  · rintro ⟨_, q, q', ⟨b, w, b', b'', hb, hw, hb', hb''⟩, hq, hq', hs, rfl⟩
    refine ⟨_, ⟨w, hw, ?_⟩, _, ⟨b', hb', rfl⟩, b'', q, q', hb'', hq, hq', hs, rfl⟩
    cases w with
    | nil => exact absurd hw.symm hname.1
    | cons c w =>
      have hc := isBlank_of_isAlpha (hname.isAlpha hw c List.mem_cons_self)
      simp only [List.append_assoc, List.cons_append]
      rw [Text.trimStart_append_of_isAllBlank hb, Text.trimStart_cons hc]

theorem IsLabel.mem (hname : IsName name) {g : Text} (h : IsLabel name g) :
    ∀ c ∈ g, isBlank c = true ∨ c = ':' ∨ c.isAlpha = true := by
  obtain ⟨b, w, b', b'', hb, hw, hb', hb''⟩ := h
  intro c hc
  simp only [List.mem_append, List.mem_cons] at hc
  rcases hc with ((hc | hc) | hc) | rfl | hc
  · exact .inl (List.all_eq_true.1 hb c hc)
  · exact .inr (.inr (hname.isAlpha hw c hc))
  · exact .inl (List.all_eq_true.1 hb' c hc)
  · exact .inr (.inl rfl)
  · exact .inl (List.all_eq_true.1 hb'' c hc)

theorem IsLabel.isAllBlank {g : Text} (h : IsLabel name g) : isAllBlank g = false := by
  obtain ⟨b, w, b', b'', -, -, -, -⟩ := h
  simp [Text.isAllBlank, show isBlank ':' = false by decide]

/-! ## Records -/

/-- The text `[volumeClaim: 'claim', mountPath: 'path']` of a record. -/
inductive IsRecord (v : Volume) : Text → Prop
  | intro (g b m b' : Text) (q₁ q₂ q₃ q₄ : Char) (hg : IsLabel "volumeclaim".toList g)
      (hq₁ : isQuoteMark q₁ = true) (hclaim : IsString v.claim) (hq₂ : isQuoteMark q₂ = true)
      (hb : isAllBlank b = true) (hm : IsLabel "mountpath".toList m)
      (hq₃ : isQuoteMark q₃ = true) (hpath : IsString v.path) (hq₄ : isQuoteMark q₄ = true)
      (hb' : isAllBlank b' = true) :
      IsRecord v ('[' :: (g ++ q₁ :: (v.claim ++ q₂ :: (b ++ ',' :: (m ++ q₃ :: (v.path ++
        q₄ :: (b' ++ [']'])))))))

theorem isName_volumeclaim : IsName "volumeclaim".toList := ⟨by decide, by decide⟩

theorem isName_mountpath : IsName "mountpath".toList := ⟨by decide, by decide⟩

theorem record_eq_some_iff {t : Text} {v : Volume} {n : Nat} :
    record t = some (v, n) ↔ ∃ r rest, IsRecord v r ∧ t = r ++ rest ∧ n = r.length := by
  rw [record, Pattern.ofReader_eq_some_iff]
  constructor
  · rintro ⟨rest, hread, rfl⟩
    split at hread
    · simp only [Option.bind_eq_bind, Option.bind_eq_some_iff, Option.some_inj, Prod.exists,
        readField?_eq_some_iff isName_volumeclaim, readField?_eq_some_iff isName_mountpath,
        dropChar?_eq_some_iff (show isBlank ',' = false by decide),
        dropChar?_eq_some_iff (show isBlank ']' = false by decide)] at hread
      obtain ⟨claim, _, ⟨g, q₁, q₂, hg, hq₁, hq₂, hclaim, rfl⟩, _, ⟨b, hb, rfl⟩, path, _,
        ⟨m, q₃, q₄, hm, hq₃, hq₄, hpath, rfl⟩, _, ⟨b', hb', rfl⟩, heq⟩ := hread
      cases heq
      refine ⟨_, rest, .intro g b m b' q₁ q₂ q₃ q₄ hg hq₁ hclaim hq₂ hb hm hq₃ hpath hq₄ hb',
        by simp, ?_⟩
      simp only [List.length_append, List.length_cons, List.length_nil]
      omega
    · cases hread
  · rintro ⟨_, rest, ⟨g, b, m, b', q₁, q₂, q₃, q₄, hg, hq₁, hclaim, hq₂, hb, hm, hq₃, hpath, hq₄,
      hb'⟩, rfl, rfl⟩
    refine ⟨rest, ?_, by simp only [List.length_append]; omega⟩
    simp only [List.cons_append, List.append_assoc, Option.bind_eq_bind, Option.bind_eq_some_iff,
      Option.some_inj, Prod.exists, readField?_eq_some_iff isName_volumeclaim,
      readField?_eq_some_iff isName_mountpath,
      dropChar?_eq_some_iff (show isBlank ',' = false by decide),
      dropChar?_eq_some_iff (show isBlank ']' = false by decide)]
    exact ⟨v.claim, _, ⟨g, q₁, q₂, hg, hq₁, hq₂, hclaim, rfl⟩, _, ⟨b, hb, rfl⟩, v.path, _,
      ⟨m, q₃, q₄, hm, hq₃, hq₄, hpath, rfl⟩, _, ⟨b', hb', rfl⟩, rfl⟩

/-- An entry holds what its names, its claim and its path hold. -/
theorem notMem_entry {v : Volume} {c : Char}
    (hwords : c ∉ "volumeClaim:'".toList ++ ", ".toList ++ "mountPath:'".toList) (hclaim : c ∉ v.claim)
    (hpath : c ∉ v.path) : c ∉ v.entry := by
  have hjoined : ∀ p q s : Text, '\'' ∈ p → c ∉ p ++ s ++ q →
      c ∉ p ++ v.claim ++ ['\''] ++ s ++ (q ++ v.path ++ ['\'']) := by
    intro p q s hquote h
    have hmark : c ≠ '\'' := by
      rintro rfl
      exact h (List.mem_append_left _ (List.mem_append_left _ hquote))
    simp only [List.mem_append, List.mem_singleton, not_or] at h ⊢
    exact ⟨⟨⟨⟨h.1.1, hclaim⟩, hmark⟩, h.1.2⟩, ⟨h.2, hpath⟩, hmark⟩
  exact hjoined _ _ _ (by decide) hwords

theorem advances_record : record.Advances := by
  intro t v n h
  obtain ⟨r, rest, hr, rfl, rfl⟩ := record_eq_some_iff.1 h
  cases hr
  simp only [List.length_append, List.length_cons]
  omega

/-! ## Where records are found -/

theorem eq_of_append_quoteMark {x y s t : Text} {p q : Char} (hx : ∀ c ∈ x, isQuoteMark c = false)
    (hy : ∀ c ∈ y, isQuoteMark c = false) (hp : isQuoteMark p = true) (hq : isQuoteMark q = true)
    (h : x ++ p :: s = y ++ q :: t) : x = y ∧ s = t := by
  have hfront : ∀ {z : Text} {r : Char} {u : Text}, (∀ c ∈ z, isQuoteMark c = false) →
      isQuoteMark r = true → (z ++ r :: u).takeWhile (fun c => !isQuoteMark c) = z := by
    intro z r u hz hr
    rw [List.takeWhile_append_of_pos fun c hc => by rw [hz c hc]; rfl,
      List.takeWhile_cons_of_neg (by simp [hr]), List.append_nil]
  have hxy : x = y := by rw [← hfront hx hp (u := s), h, hfront hy hq]
  subst hxy
  exact ⟨rfl, (List.cons.inj (List.append_cancel_left h)).2⟩

/-- A string that begins before a record ends before it, if what follows the string is not what the
record's own string begins with. -/
theorem exists_append_of_string {s x g z z' : Text} {q q' : Char}
    (hx : ∀ e ∈ x, isQuoteMark e = false) (hg : ∀ e ∈ g, isQuoteMark e = false)
    (hq : isQuoteMark q = true) (hq' : isQuoteMark q' = true) (hz : z ≠ z')
    (h : s ++ '[' :: (g ++ q :: z) = x ++ q' :: z') :
    ∃ s', s = x ++ q' :: s' ∧ s' ++ '[' :: (g ++ q :: z) = z' := by
  rcases List.append_eq_append_iff.1 h with ⟨y, rfl, hy⟩ | ⟨y, rfl, hy⟩
  · -- the first quote mark after the bracket closes the string
    have hg' : ∀ e ∈ '[' :: g, isQuoteMark e = false :=
      List.forall_mem_cons.2 ⟨by decide, hg⟩
    have hy' : ∀ e ∈ y, isQuoteMark e = false := fun e he => hx e (List.mem_append_right s he)
    exact absurd (eq_of_append_quoteMark hg' hy' hq hq' hy).2 hz
  · cases y with
    | nil =>
      injection hy with hmark _
      rw [hmark] at hq'
      exact absurd hq' (by decide)
    | cons e y =>
      injection hy with he hy
      exact ⟨y, by rw [he], hy.symm⟩

/-- The characters that the names of claims and paths are made of. -/
def isNameChar (c : Char) : Bool :=
  c.isAlphanum || c == '-' || c == '_' || c == '.' || c == '/'

/-- Claim and path hold nothing but the characters of names. -/
def IsPlain (v : Volume) : Prop :=
  (∀ c ∈ v.claim, isNameChar c = true) ∧ ∀ c ∈ v.path, isNameChar c = true

instance (v : Volume) : Decidable v.IsPlain :=
  decidable_of_iff (v.claim.all isNameChar = true ∧ v.path.all isNameChar = true)
    (and_congr List.all_eq_true List.all_eq_true)

theorem ne_of_isNameChar {c d : Char} (h : isNameChar c = true) (hd : isNameChar d = false) :
    c ≠ d := by
  rintro rfl
  rw [h] at hd
  cases hd

variable {v w : Volume} {r r' : Text}

theorem IsLabel.isQuoteMark (hname : IsName name) {g : Text} (h : IsLabel name g) :
    ∀ c ∈ g, isQuoteMark c = false := by
  intro c hc
  rcases h.mem hname c hc with hblank | rfl | halpha
  · by_contra hq
    rw [isBlank_of_isQuoteMark (by simpa using hq)] at hblank
    cases hblank
  · decide
  · by_contra hq
    simp only [Bool.not_eq_false, Volume.isQuoteMark, Bool.or_eq_true, beq_iff_eq] at hq
    rcases hq with rfl | rfl
    · exact absurd halpha (by decide)
    · exact absurd halpha (by decide)

theorem IsLabel.notMem (hname : IsName name) {g : Text} (h : IsLabel name g) {c : Char}
    (hblank : isBlank c = false) (hcolon : c ≠ ':') (halpha : c.isAlpha = false) : c ∉ g := by
  intro hc
  rcases h.mem hname c hc with h | h | h
  · rw [hblank] at h
    cases h
  · exact hcolon h
  · rw [halpha] at h
    cases h

theorem notMem_of_isAllBlank {b : Text} (h : isAllBlank b = true) {c : Char}
    (hc : isBlank c = false) : c ∉ b := by
  intro hmem
  rw [List.all_eq_true.1 h c hmem] at hc
  cases hc

theorem IsLabel.colon_mem {g : Text} (h : IsLabel name g) : ':' ∈ g := by
  obtain ⟨b, w, b', b'', -, -, -, -⟩ := h
  simp

/-- Between its brackets a record holds what its claim and its path hold, and else its delimiters,
letters and blanks. -/
theorem IsRecord.exists_inside (hr : IsRecord v r) :
    ∃ m, r = '[' :: (m ++ [']']) ∧ ∀ c, isBlank c = false → c ≠ ':' → c ≠ ',' → c.isAlpha = false →
      Volume.isQuoteMark c = false → c ∉ v.claim → c ∉ v.path → c ∉ m := by
  obtain ⟨g, b, m, b', q₁, q₂, q₃, q₄, hg, hq₁, -, hq₂, hb, hm, hq₃, -, hq₄, hb'⟩ := hr
  refine ⟨g ++ q₁ :: (v.claim ++ q₂ :: (b ++ ',' :: (m ++ q₃ :: (v.path ++ q₄ :: b')))), by simp,
    fun c hblank hcolon hcomma halpha hquote hclaim hpath => ?_⟩
  have hmark : ∀ q, Volume.isQuoteMark q = true → c ≠ q := by
    rintro q hq rfl
    rw [hq] at hquote
    cases hquote
  simp only [List.mem_cons, List.mem_append, not_or]
  exact ⟨hg.notMem isName_volumeclaim hblank hcolon halpha, hmark _ hq₁, hclaim, hmark _ hq₂,
    notMem_of_isAllBlank hb hblank, hcomma, hm.notMem isName_mountpath hblank hcolon halpha,
    hmark _ hq₃, hpath, hmark _ hq₄, notMem_of_isAllBlank hb' hblank⟩

theorem IsRecord.colon_mem (hr : IsRecord v r) : ':' ∈ r := by
  obtain ⟨g, b, m, b', q₁, q₂, q₃, q₄, hg, -, -, -, -, -, -, -, -, -⟩ := hr
  exact List.mem_cons_of_mem _ (List.mem_append_left _ hg.colon_mem)

theorem IsRecord.notMem_dollar (hr : IsRecord v r) (hv : v.IsPlain) : '$' ∉ r := by
  obtain ⟨m, rfl, hm⟩ := hr.exists_inside
  have hinside : '$' ∉ m := hm '$' (by decide) (by decide) (by decide) (by decide) (by decide)
    (fun hc => absurd (hv.1 _ hc) (by decide)) fun hc => absurd (hv.2 _ hc) (by decide)
  simp only [List.mem_cons, List.mem_append, not_or, List.not_mem_nil, not_false_eq_true, and_true]
  exact ⟨by decide, hinside, by decide⟩

/-- No string begins between the two strings of a record. -/
theorem isQuoteMark_of_comma {b m : Text} (hb : isAllBlank b = true)
    (hm : IsLabel "mountpath".toList m) : ∀ c ∈ b ++ ',' :: m, isQuoteMark c = false := by
  intro c hc
  rw [List.mem_append, List.mem_cons] at hc
  rcases hc with hc | rfl | hc
  · by_contra hmark
    exact notMem_of_isAllBlank hb (isBlank_of_isQuoteMark (by simpa using hmark)) hc
  · decide
  · exact hm.isQuoteMark isName_mountpath c hc

/-- A claim that does not go on like a record behind a string. -/
structure IsUnlike (claim : Text) : Prop where
  colon : ':' ∉ claim
  bracket : ']' ∉ claim

theorem IsPlain.isUnlike (hv : v.IsPlain) : IsUnlike v.claim :=
  ⟨fun h => absurd (hv.1 _ h) (by decide), fun h => absurd (hv.1 _ h) (by decide)⟩

/-- Such a claim is not the part between the two strings of a record. -/
theorem IsUnlike.ne_comma {claim b m : Text} {q q' : Char} (h : IsUnlike claim)
    (hclaim : IsString claim) (hq : isQuoteMark q = true) (hb : isAllBlank b = true)
    (hm : IsLabel "mountpath".toList m) (hq' : isQuoteMark q' = true) (x y : Text) :
    claim ++ q :: x ≠ b ++ ',' :: (m ++ q' :: y) := by
  intro heq
  have hsame := (eq_of_append_quoteMark hclaim.2 (isQuoteMark_of_comma hb hm) hq hq'
    (by simpa using heq)).1
  refine h.colon ?_
  rw [hsame]
  simp [hm.colon_mem]

/-- Such a claim does not begin with what ends a record. -/
theorem IsUnlike.ne_bracket {claim b : Text} {q : Char} (h : IsUnlike claim)
    (hq : isQuoteMark q = true) (hb : isAllBlank b = true) (x y : Text) :
    claim ++ q :: x ≠ b ++ ']' :: y := by
  intro heq
  have hmark : q ∉ b ++ [']'] := by
    rw [List.mem_append, List.mem_singleton, not_or]
    refine ⟨notMem_of_isAllBlank hb (isBlank_of_isQuoteMark hq), ?_⟩
    rintro rfl
    exact absurd hq (by decide)
  obtain ⟨s, hsame, -⟩ := Text.exists_append_of_notMem hmark (by simpa using heq)
  refine h.bracket ?_
  rw [hsame]
  simp

/-- A record that begins in front of a record ends in front of it. -/
theorem IsRecord.length_le (hr : IsRecord v r) (hv : IsUnlike v.claim) (hr' : IsRecord w r')
    {s b rest : Text} (hs : s ≠ []) (h : s ++ (r ++ b) = r' ++ rest) : r'.length ≤ s.length := by
  obtain ⟨g, _, _, _, q₁, q₂, _, _, hg, hq₁, hclaim, hq₂, _, _, _, _, _, _⟩ := hr
  obtain ⟨g', b₁, m, b₂, p₁, p₂, p₃, p₄, hg', hp₁, hclaim', hp₂, hb₁, hm, hp₃, hpath', hp₄, hb₂⟩ :=
    hr'
  have hbracket : ∀ q, isQuoteMark q = true → '[' ≠ q := by
    rintro q hq rfl
    exact absurd hq (by decide)
  obtain ⟨s₀, rfl⟩ : ∃ s₀, s = '[' :: s₀ := by
    cases s with
    | nil => exact absurd rfl hs
    | cons d s =>
      injection h with hd _
      exact ⟨s, by rw [hd]⟩
  simp only [List.cons_append, List.append_assoc, List.cons.injEq, true_and] at h
  -- one part of the earlier record after the other lies in front of the bracket
  obtain ⟨s₁, rfl, h₁⟩ := Text.exists_append_of_notMem (p := g' ++ [p₁]) (by
    rw [List.mem_append, List.mem_singleton, not_or]
    exact ⟨hg'.notMem isName_volumeclaim (by decide) (by decide) (by decide), hbracket p₁ hp₁⟩)
    (by simpa using h)
  obtain ⟨s₂, rfl, h₂⟩ := exists_append_of_string hclaim'.2
    (hg.isQuoteMark isName_volumeclaim) hq₁ hp₂
    (hv.ne_comma hclaim hq₂ hb₁ hm hp₃ _ _) h₁
  obtain ⟨s₃, rfl, h₃⟩ := Text.exists_append_of_notMem (p := b₁ ++ ',' :: m ++ [p₃]) (by
    simp only [List.mem_append, List.mem_cons, not_or, List.not_mem_nil, not_false_eq_true,
      and_true]
    exact ⟨⟨notMem_of_isAllBlank hb₁ (by decide), by decide,
      hm.notMem isName_mountpath (by decide) (by decide) (by decide)⟩, hbracket p₃ hp₃⟩)
    (by simpa using h₂)
  obtain ⟨s₄, rfl, h₄⟩ := exists_append_of_string hpath'.2 (hg.isQuoteMark isName_volumeclaim) hq₁
    hp₄ (hv.ne_bracket hq₂ hb₂ _ _) h₃
  obtain ⟨s₅, rfl, -⟩ := Text.exists_append_of_notMem (c := '[') (p := b₂ ++ [']']) (by
    rw [List.mem_append, List.mem_singleton, not_or]
    exact ⟨notMem_of_isAllBlank hb₂ (by decide), by decide⟩) (by simpa using h₄)
  simp only [List.length_append, List.length_cons, List.length_nil]
  omega

theorem IsRecord.mem_records (hr : IsRecord v r) (hv : IsUnlike v.claim) (a b : Text) :
    v ∈ records (a ++ r ++ b) := by
  rw [List.append_assoc]
  refine Pattern.mem_hits_append advances_record ?_ (record_eq_some_iff.2 ⟨r, b, hr, rfl, rfl⟩) a ?_
  · cases hr
    simp
  · intro s hs _ w m hm
    obtain ⟨r', rest, hr', h, rfl⟩ := record_eq_some_iff.1 hm
    exact hr.length_le hv hr' hs h

theorem mem_records_append (hr : IsRecord v r) (hv : v.IsPlain) (a b : Text) :
    v ∈ records (a ++ r ++ b) := hr.mem_records hv.isUnlike a b

theorem exists_of_mem_records {t : Text} (h : v ∈ records t) :
    ∃ a r b, t = a ++ r ++ b ∧ IsRecord v r := by
  obtain ⟨a, s, n, rfl, hs⟩ := Pattern.exists_of_mem_hits advances_record h
  obtain ⟨r, b, hr, rfl, rfl⟩ := record_eq_some_iff.1 hs
  exact ⟨a, r, b, by rw [List.append_assoc], hr⟩

end Volume
end HeadJob
