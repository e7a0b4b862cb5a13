import HeadJob.Proofs.Config.Resolve

/-!
When replacing placeholders one after another is replacing them at once.

A placeholder begins with its only dollar sign and ends with its only closing brace, so two of them
never overlap, and a text may be cut at any of them.  References replace in turn; what comes in with
one of them, or is made with the text around it, may hold a placeholder whose turn is still to come.
The main statement tells exactly when none does.
-/

namespace HeadJob

namespace Pattern

variable {α : Type} {p : Pattern α}

theorem replace_congr {f g : α → Text} {t : Text} (h : ∀ a ∈ p.hits t, f a = g a) :
    p.replace f t = p.replace g t := by
  have hpieces : ∀ ps : List (Piece α), (∀ a ∈ ps.filterMap Piece.hit?, f a = g a) →
      ps.flatMap (Piece.text f) = ps.flatMap (Piece.text g) := by
    intro ps hps
    refine List.flatMap_congr fun piece hpiece => ?_
    cases piece with
    | char c => rfl
    | hit a => exact hps a (List.mem_filterMap.2 ⟨_, hpiece, rfl⟩)
  exact hpieces _ h

end Pattern

theorem Text.exists_append_stripQuotes (t : Text) : ∃ a b, t = a ++ t.stripQuotes ++ b := by
  unfold stripQuotes
  split
  · exact ⟨[], [], rfl⟩
  · next c r =>
    split
    · next h =>
      simp only [Bool.and_eq_true, beq_iff_eq] at h
      obtain ⟨front, rfl⟩ := List.getLast?_eq_some_iff.1 h.2
      exact ⟨[c], [c], by simp⟩
    · exact ⟨[], [], by simp⟩

namespace Placeholder

variable {block key value k t u v : Text}

/-- A key that a placeholder can name. -/
structure IsName (key : Text) : Prop where
  ne_nil : key ≠ []
  isKeyChar : ∀ c ∈ key, Placeholder.isKeyChar c = true

theorem pattern_eq_some_iff {n : Nat} :
    pattern block t = some (key, n) ↔
      IsName key ∧ n = (text block key).length ∧ ∃ rest, t = text block key ++ rest := by
  constructor
  · intro h
    obtain ⟨rest, rfl, rfl, hchars⟩ := pattern_eq_some h
    have hne : key ≠ [] := by
      rintro rfl
      obtain ⟨rest', hread, -⟩ := Pattern.ofReader_eq_some_iff.1 h
      split at hread
      · cases hread
      · split at hread
        · cases hread
        · cases hread
    refine ⟨⟨hne, hchars⟩, ?_, rest, by simp [text]⟩
    simp only [text, List.length_append, List.length_cons, List.length_nil]
    omega
  · rintro ⟨⟨hne, hchars⟩, rfl, rest, rfl⟩
    obtain ⟨c, key, rfl⟩ := List.exists_cons_of_ne_nil hne
    have htake : ((c :: key) ++ '}' :: rest).takeWhile isKeyChar = c :: key := by
      rw [List.takeWhile_append_of_pos hchars, List.takeWhile_cons_of_neg (by decide), List.append_nil]
    have hdrop : ((c :: key) ++ '}' :: rest).dropWhile isKeyChar = '}' :: rest := by
      rw [List.dropWhile_append_of_pos hchars, List.dropWhile_cons_of_neg (by decide)]
    have hsplit : text block (c :: key) ++ rest = opening block ++ ((c :: key) ++ '}' :: rest) := by
      simp [text]
    have hopen : Text.dropPrefix? (opening block) (text block (c :: key) ++ rest) =
        some ((c :: key) ++ '}' :: rest) := Text.dropPrefix?_eq_some_iff.2 hsplit
    refine Pattern.ofReader_eq_some_iff.2 ⟨rest, ?_, by simp⟩
    simp only [hopen, htake, hdrop]

/-- Of a placeholder only the first character is a dollar sign. -/
theorem notMem_of_text_eq_cons (hblock : ∀ c ∈ block, isKeyChar c = true) (hkey : IsName key)
    {c : Char} {tail : Text} (h : text block key = c :: tail) : '$' ∉ tail := by
  have hname : ∀ t : Text, (∀ c ∈ t, isKeyChar c = true) → '$' ∉ t :=
    fun t ht hc => absurd (ht _ hc) (by decide)
  obtain ⟨-, rfl⟩ := List.cons.inj h
  simp [hname block hblock, hname key hkey.isKeyChar]

theorem pattern_append_text (hblock : ∀ c ∈ block, isKeyChar c = true) (hu : u ≠ [])
    (key v : Text) : pattern block (u ++ text block key ++ v) = pattern block u := by
  refine Option.ext fun ⟨k, n⟩ => ?_
  rw [pattern_eq_some_iff, pattern_eq_some_iff]
  refine and_congr_right fun hk => and_congr_right fun _ => ⟨?_, ?_⟩
  · rintro ⟨rest, hrest⟩
    rw [List.append_assoc] at hrest
    rcases List.append_eq_append_iff.1 hrest with ⟨x, hx, hv⟩ | ⟨x, rfl, -⟩
    · cases x with
      | nil => exact ⟨[], by rw [hx]; simp⟩
      | cons d x =>
        -- a placeholder that goes on after `u` would hold the dollar sign of the one behind `u`
        obtain ⟨c, u, rfl⟩ := List.exists_cons_of_ne_nil hu
        have hd : d = '$' := (List.cons.inj hv).1.symm
        exact absurd (by simp [hd]) (notMem_of_text_eq_cons hblock hk hx)
    · exact ⟨x, rfl⟩
  · rintro ⟨rest, rfl⟩
    exact ⟨rest ++ text block key ++ v, by simp⟩

theorem cut_append_text (hblock : ∀ c ∈ block, isKeyChar c = true) (hkey : IsName key)
    (u v : Text) :
    (pattern block).cut (u ++ text block key ++ v) =
      (pattern block).cut u ++ .hit key :: (pattern block).cut v := by
  have hhead : pattern block (text block key ++ v) = some (key, (text block key).length) :=
    pattern_eq_some_iff.2 ⟨hkey, rfl, v, rfl⟩
  have hcut := Pattern.cut_of_match (by simp [text, opening]) (by simp [text, opening]) hhead
  rw [List.drop_left] at hcut
  rw [List.append_assoc, Pattern.cut_append (advances_pattern block) fun s hs _ => ?_, hcut]
  rw [← List.append_assoc]
  exact pattern_append_text hblock hs key v

theorem references_append_text (hblock : ∀ c ∈ block, isKeyChar c = true) (hkey : IsName key)
    (u v : Text) :
    references block (u ++ text block key ++ v) = references block u ++ key :: references block v := by
  rw [references, Pattern.hits, cut_append_text hblock hkey, List.filterMap_append]
  rfl

theorem replace_append_text (hblock : ∀ c ∈ block, isKeyChar c = true) (hkey : IsName key)
    (f : Text → Text) (u v : Text) :
    (pattern block).replace f (u ++ text block key ++ v) =
      (pattern block).replace f u ++ f key ++ (pattern block).replace f v := by
  rw [Pattern.replace, cut_append_text hblock hkey, List.flatMap_append, List.append_assoc]
  rfl

theorem isName_of_mem_references (h : key ∈ references block value) : IsName key := by
  obtain ⟨-, s, n, -, hs⟩ := Pattern.exists_of_mem_hits (advances_pattern block) h
  exact (pattern_eq_some_iff.1 hs).1

theorem exists_of_mem_references (h : key ∈ references block value) :
    ∃ u v, value = u ++ text block key ++ v := by
  obtain ⟨u, s, n, rfl, hs⟩ := Pattern.exists_of_mem_hits (advances_pattern block) h
  obtain ⟨-, -, v, rfl⟩ := pattern_eq_some_iff.1 hs
  exact ⟨u, v, by simp⟩

/-- What holds of texts that do not refer to a key, and passes on when two texts are joined by its
placeholder, holds of all texts. -/
theorem split_induction (block key : Text) {P : Text → Prop}
    (hnone : ∀ t, key ∉ references block t → P t)
    (hsplit : ∀ u v, P u → P v → P (u ++ text block key ++ v)) (t : Text) : P t := by
  induction hlen : t.length using Nat.strongRecOn generalizing t with
  | ind m ih =>
    by_cases hmem : key ∈ references block t
    · obtain ⟨u, v, rfl⟩ := exists_of_mem_references hmem
      simp only [text, opening, List.length_append, List.length_cons, List.length_nil] at hlen
      exact hsplit u v (ih u.length (by omega) u rfl) (ih v.length (by omega) v rfl)
    · exact hnone t hmem

/-- To replace a placeholder as a text is to replace the references to its key. -/
theorem replaceAll_text (hblock : ∀ c ∈ block, isKeyChar c = true) (hkey : IsName key)
    (new t : Text) :
    Text.replaceAll (text block key) new t =
      (pattern block).replace (fun k => if k = key then new else text block k) t := by
  refine Pattern.replace_induction (advances_pattern block) _
    (Q := fun t u => Text.replaceAll (text block key) new t = u) rfl ?_ ?_ t
  · intro c t u hnone hu
    have hexactly : Pattern.exactly (text block key) (c :: t) = none := by
      refine Option.eq_none_iff_forall_ne_some.2 fun hit hn => ?_
      obtain ⟨-, -, rest, hrest⟩ := Pattern.exactly_eq_some_iff.1 hn
      rw [pattern_eq_some_iff.2 ⟨hkey, rfl, rest, hrest⟩] at hnone
      cases hnone
    rw [Text.replaceAll, Pattern.replace, Pattern.cut_of_no_match hexactly, List.flatMap_cons]
    exact congrArg (c :: ·) hu
  · intro t k n u hhit hu
    obtain ⟨hk, rfl, rest, rfl⟩ := pattern_eq_some_iff.1 hhit
    rw [List.drop_left] at hu
    split
    · next heq =>
      subst heq
      have hexactly : Pattern.exactly (text block k) (text block k ++ rest) =
          some ((), (text block k).length) :=
        Pattern.exactly_eq_some_iff.2 ⟨by simp [text], rfl, rest, rfl⟩
      rw [Text.replaceAll, Pattern.replace,
        Pattern.cut_of_match (by simp [text]) (by simp [text, opening]) hexactly, List.drop_left,
        List.flatMap_cons]
      exact congrArg (new ++ ·) hu
    · next hne =>
      rw [← hu]
      refine Pattern.replace_append_of_none _ fun s hs hsuf => ?_
      refine Option.eq_none_iff_forall_ne_some.2 fun hit hn => ?_
      obtain ⟨-, -, rest', hrest'⟩ := Pattern.exactly_eq_some_iff.1 hn
      obtain ⟨front, hfront⟩ := hsuf
      cases front with
      | nil =>
        rw [List.nil_append] at hfront
        subst hfront
        rw [pattern_eq_some_iff.2 ⟨hkey, rfl, rest', hrest'⟩] at hhit
        exact hne (congrArg Prod.fst (Option.some.inj hhit)).symm
      | cons c front =>
        -- behind its first character a placeholder holds no dollar sign
        obtain ⟨d, s, rfl⟩ := List.exists_cons_of_ne_nil hs
        have hd : d = '$' := (List.cons.inj hrest').1
        exact absurd (by simp [hd]) (notMem_of_text_eq_cons hblock hk hfront.symm)

theorem replace_text (block t : Text) : (pattern block).replace (text block) t = t := by
  refine Pattern.replace_induction (advances_pattern block) _ (Q := fun t u => u = t) rfl
    (fun c t u _ h => by rw [h]) (fun t k n u hhit h => ?_) t
  obtain ⟨-, rfl, rest, rfl⟩ := pattern_eq_some_iff.1 hhit
  rw [h, List.drop_left]

theorem replaceAll_of_notMem (hblock : ∀ c ∈ block, isKeyChar c = true) (hkey : IsName key)
    (new : Text) (h : key ∉ references block t) : Text.replaceAll (text block key) new t = t := by
  rw [replaceAll_text hblock hkey]
  refine Eq.trans (Pattern.replace_congr fun k hk => ?_) (replace_text block t)
  exact if_neg fun (heq : k = key) => h (heq ▸ hk)

theorem replaceAll_append_text (hblock : ∀ c ∈ block, isKeyChar c = true) (hkey : IsName key)
    (new u v : Text) :
    Text.replaceAll (text block key) new (u ++ text block key ++ v) =
      Text.replaceAll (text block key) new u ++ new ++ Text.replaceAll (text block key) new v := by
  simp only [replaceAll_text hblock hkey, replace_append_text hblock hkey, if_true]

theorem length_replaceAll_text (hblock : ∀ c ∈ block, isKeyChar c = true) (hkey : IsName key)
    (new t : Text) :
    (Text.replaceAll (text block key) new t).length +
        (references block t).count key * (text block key).length =
      t.length + (references block t).count key * new.length := by
  induction t using split_induction block key with
  | hnone t hmem =>
    rw [replaceAll_of_notMem hblock hkey new hmem, List.count_eq_zero.2 hmem]
    omega
  | hsplit u v hu hv =>
    rw [replaceAll_append_text hblock hkey, references_append_text hblock hkey, List.count_append,
      List.count_cons_self]
    simp only [List.length_append, Nat.add_mul, Nat.one_mul]
    omega

/-- A replacement that leaves a text as it is finds nothing to replace, or puts in what it takes out. -/
theorem notMem_of_replaceAll_eq (hblock : ∀ c ∈ block, isKeyChar c = true) (hkey : IsName key)
    {new : Text} (hnew : new ≠ text block key)
    (h : Text.replaceAll (text block key) new t = t) : key ∉ references block t := by
  intro hmem
  have hlength : new.length = (text block key).length := by
    have hcount := length_replaceAll_text hblock hkey new t
    rw [h] at hcount
    have hpos : 0 < (references block t).count key := List.count_pos_iff.2 hmem
    exact (Nat.eq_of_mul_eq_mul_left hpos (by omega)).symm
  obtain ⟨u, v, rfl⟩ := exists_of_mem_references hmem
  rw [replaceAll_append_text hblock hkey, List.append_assoc, List.append_assoc] at h
  have hu : (Text.replaceAll (text block key) new u).length = u.length := by
    have := length_replaceAll_text hblock hkey new u
    rw [hlength] at this
    omega
  exact hnew (List.append_inj (List.append_inj h hu).2 hlength).1

end Placeholder

namespace Settings

open Placeholder

variable {s s' : Settings} {block key reference value resolved u v : Text} {keys : List Text}

/-- What the placeholders of a key stand for: its value without one layer of quotes. -/
def target (s : Settings) (key : Text) : Text := Text.stripQuotes ((s.get? key).getD [])

/-- The value with the placeholders of some keys replaced, all of them at once. -/
def substitute (s : Settings) (block : Text) (keys : List Text) (value : Text) : Text :=
  (Placeholder.pattern block).replace
    (fun key => if keys.contains key then s.target key else Placeholder.text block key) value

/-- The value after the replacements for some references, one after another. -/
def replaceInTurn (s : Settings) (block : Text) (references : List Text) (value : Text) : Text :=
  references.foldl (fun text reference =>
    Text.replaceAll (Placeholder.text block reference) (s.target reference) text) value

/-- When the turn of a reference comes, the text holds its placeholder where the value held it and it
was not replaced before, and nowhere else. -/
def Undisturbed (s : Settings) (block value : Text) : Prop :=
  ∀ n, (h : n < (references block value).length) →
    (references block (s.substitute block ((references block value).take n) value)).count
        (references block value)[n] =
      ((references block value).filter (!((references block value).take n).contains ·)).count
        (references block value)[n]

instance : Decidable (s.Undisturbed block value) := by
  unfold Undisturbed
  infer_instance

theorem substitute_append_text_of_mem (hblock : ∀ c ∈ block, isKeyChar c = true)
    (hname : IsName reference) (h : reference ∈ keys) (u v : Text) :
    s.substitute block keys (u ++ text block reference ++ v) =
      s.substitute block keys u ++ s.target reference ++ s.substitute block keys v := by
  rw [substitute, replace_append_text hblock hname, if_pos (List.contains_iff_mem.2 h)]
  rfl

theorem substitute_append_text_of_notMem (hblock : ∀ c ∈ block, isKeyChar c = true)
    (hname : IsName reference) (h : reference ∉ keys) (u v : Text) :
    s.substitute block keys (u ++ text block reference ++ v) =
      s.substitute block keys u ++ text block reference ++ s.substitute block keys v := by
  rw [substitute, replace_append_text hblock hname, if_neg (mt List.contains_iff_mem.1 h)]
  rfl

theorem substitute_nil (s : Settings) (block value : Text) : s.substitute block [] value = value := by
  refine Eq.trans (Pattern.replace_congr fun k _ => ?_) (replace_text block value)
  exact if_neg (by simp)

theorem substitute_concat_of_notMem (h : reference ∉ references block value) :
    s.substitute block (keys ++ [reference]) value = s.substitute block keys value := by
  refine Pattern.replace_congr fun k hk => ?_
  have hne : k ≠ reference := fun heq => h (heq ▸ hk)
  simp [hne]

theorem substitute_concat_of_mem (h : reference ∈ keys) :
    s.substitute block (keys ++ [reference]) value = s.substitute block keys value := by
  refine Pattern.replace_congr fun k _ => ?_
  by_cases heq : k = reference
  · simp [heq, h]
  · simp [heq]

theorem substitute_references (s : Settings) (block value : Text) :
    s.substitute block (references block value) value =
      (Placeholder.pattern block).replace s.target value :=
  Pattern.replace_congr fun _ hk => if_pos (List.contains_iff_mem.2 hk)

section

variable (hblock : ∀ c ∈ block, isKeyChar c = true) (hname : IsName reference)
  (hkeys : reference ∉ keys)

include hblock hname hkeys

theorem count_le_count_substitute (value : Text) :
    (references block value).count reference ≤
      (references block (s.substitute block keys value)).count reference := by
  induction value using split_induction block reference with
  | hnone t hmem =>
    rw [List.count_eq_zero.2 hmem]
    exact Nat.zero_le _
  | hsplit u v hu hv =>
    rw [substitute_append_text_of_notMem hblock hname hkeys,
      references_append_text hblock hname, references_append_text hblock hname]
    simp only [List.count_append, List.count_cons_self]
    omega

theorem length_substitute_concat (value : Text) :
    (s.substitute block (keys ++ [reference]) value).length +
        (references block value).count reference * (text block reference).length =
      (s.substitute block keys value).length +
        (references block value).count reference * (s.target reference).length := by
  induction value using split_induction block reference with
  | hnone t hmem =>
    rw [substitute_concat_of_notMem hmem, List.count_eq_zero.2 hmem]
    omega
  | hsplit u v hu hv =>
    rw [substitute_append_text_of_notMem hblock hname hkeys,
      substitute_append_text_of_mem hblock hname (by simp), references_append_text hblock hname]
    simp only [List.length_append, List.count_append, List.count_cons_self, Nat.add_mul, Nat.one_mul]
    omega

theorem replaceAll_substitute_of_count_eq
    (h : (references block (s.substitute block keys value)).count reference =
      (references block value).count reference) :
    Text.replaceAll (text block reference) (s.target reference) (s.substitute block keys value) =
      s.substitute block (keys ++ [reference]) value := by
  induction value using split_induction block reference with
  | hnone t hmem =>
    rw [List.count_eq_zero.2 hmem, List.count_eq_zero] at h
    rw [substitute_concat_of_notMem hmem, replaceAll_of_notMem hblock hname _ h]
  | hsplit u v hu hv =>
    rw [substitute_append_text_of_notMem hblock hname hkeys,
      references_append_text hblock hname, references_append_text hblock hname] at h
    simp only [List.count_append, List.count_cons_self] at h
    have hleu := count_le_count_substitute (s := s) hblock hname hkeys u
    have hlev := count_le_count_substitute (s := s) hblock hname hkeys v
    rw [substitute_append_text_of_notMem hblock hname hkeys,
      substitute_append_text_of_mem hblock hname (by simp), replaceAll_append_text hblock hname,
      hu (by omega), hv (by omega)]

/-- If replacing all placeholders of a key does what replacing those of the value does, then there are
no others: one of the same length would show in its place, and others in the length of the text. -/
theorem count_eq_of_replaceAll_substitute (htarget : s.target reference ≠ text block reference)
    (h : Text.replaceAll (text block reference) (s.target reference)
        (s.substitute block keys value) =
      s.substitute block (keys ++ [reference]) value) :
    (references block (s.substitute block keys value)).count reference =
      (references block value).count reference := by
  by_cases hlength : (s.target reference).length = (text block reference).length
  · induction value using split_induction block reference with
    | hnone t hmem =>
      rw [substitute_concat_of_notMem hmem] at h
      rw [List.count_eq_zero.2 hmem, List.count_eq_zero]
      exact notMem_of_replaceAll_eq hblock hname htarget h
    | hsplit u v hu hv =>
      rw [substitute_append_text_of_notMem hblock hname hkeys,
        substitute_append_text_of_mem hblock hname (by simp), replaceAll_append_text hblock hname] at h
      have hsame : (Text.replaceAll (text block reference) (s.target reference)
          (s.substitute block keys u)).length =
          (s.substitute block (keys ++ [reference]) u).length := by
        have hall := length_replaceAll_text hblock hname (s.target reference)
          (s.substitute block keys u)
        have hown := length_substitute_concat (s := s) hblock hname hkeys u
        rw [hlength] at hall hown
        omega
      rw [List.append_assoc, List.append_assoc] at h
      obtain ⟨hleft, hright⟩ := List.append_inj h hsame
      rw [substitute_append_text_of_notMem hblock hname hkeys,
        references_append_text hblock hname, references_append_text hblock hname,
        List.count_append, List.count_append, List.count_cons_self, List.count_cons_self, hu hleft,
        hv (List.append_inj hright rfl).2]
  · have hall := length_replaceAll_text hblock hname (s.target reference)
      (s.substitute block keys value)
    have hown := length_substitute_concat (s := s) hblock hname hkeys value
    obtain ⟨more, hmore⟩ := Nat.exists_eq_add_of_le
      (count_le_count_substitute (s := s) hblock hname hkeys value)
    rw [h, hmore] at hall
    rw [Nat.add_mul, Nat.add_mul] at hall
    have hzero : more * (text block reference).length = more * (s.target reference).length := by
      omega
    rcases Nat.eq_zero_or_pos more with rfl | hpos
    · exact hmore
    · exact absurd (Nat.eq_of_mul_eq_mul_left hpos hzero).symm hlength

end

/-- One replacement keeps in step with replacing at once exactly if it finds what it should. -/
theorem replaceAll_substitute_iff (hblock : ∀ c ∈ block, isKeyChar c = true)
    (hname : IsName reference) (htarget : s.target reference ≠ text block reference) :
    Text.replaceAll (text block reference) (s.target reference) (s.substitute block keys value) =
        s.substitute block (keys ++ [reference]) value ↔
      (references block (s.substitute block keys value)).count reference =
        ((references block value).filter (!keys.contains ·)).count reference := by
  by_cases hkeys : reference ∈ keys
  · have hnone : reference ∉ (references block value).filter (!keys.contains ·) := by simp [hkeys]
    rw [substitute_concat_of_mem hkeys, List.count_eq_zero.2 hnone, List.count_eq_zero]
    exact ⟨notMem_of_replaceAll_eq hblock hname htarget, replaceAll_of_notMem hblock hname _⟩
  · rw [List.count_filter (by simpa using hkeys)]
    exact ⟨count_eq_of_replaceAll_substitute hblock hname hkeys htarget,
      replaceAll_substitute_of_count_eq hblock hname hkeys⟩

/-- The replacements, one after another, make at each step the text that replacing at once makes,
exactly if none of them is disturbed. -/
theorem replaceInTurn_eq_substitute_iff (hblock : ∀ c ∈ block, isKeyChar c = true)
    (htarget : ∀ reference ∈ references block value, s.target reference ≠ text block reference) :
    (∀ n ≤ (references block value).length,
        s.replaceInTurn block ((references block value).take n) value =
          s.substitute block ((references block value).take n) value) ↔
      s.Undisturbed block value := by
  have hstep : ∀ n, (h : n < (references block value).length) →
      s.replaceInTurn block ((references block value).take n) value =
        s.substitute block ((references block value).take n) value →
      (s.replaceInTurn block ((references block value).take (n + 1)) value =
          s.substitute block ((references block value).take (n + 1)) value ↔
        (references block (s.substitute block ((references block value).take n) value)).count
            (references block value)[n] =
          ((references block value).filter (!((references block value).take n).contains ·)).count
            (references block value)[n]) := by
    intro n h hn
    have hmem := List.getElem_mem h
    rw [List.take_succ_eq_append_getElem h, replaceInTurn, List.foldl_concat]
    rw [replaceInTurn] at hn
    rw [hn]
    exact replaceAll_substitute_iff hblock (isName_of_mem_references hmem) (htarget _ hmem)
  constructor
  · intro h n hn
    exact (hstep n hn (h n (Nat.le_of_lt hn))).1 (h (n + 1) hn)
  · intro h n hn
    induction n with
    | zero => exact (substitute_nil s block value).symm
    | succ n ih => exact (hstep n hn (ih (Nat.le_of_succ_le hn))).2 (h n hn)

/-! ## What resolving does -/

theorem foldlM_ok_eq_foldl {α β ε : Type} {f : β → α → Except ε β} {g : β → α → β} {Q : α → Prop}
    {l : List α} {b b' : β} (h : l.foldlM f b = .ok b')
    (hstep : ∀ a b b', f b a = .ok b' → b' = g b a ∧ Q a) : b' = l.foldl g b ∧ ∀ a ∈ l, Q a := by
  induction l generalizing b with
  | nil =>
    cases h
    exact ⟨rfl, by simp⟩
  | cons a l ih =>
    rw [List.foldlM_cons] at h
    cases hf : f b a with
    | error e =>
      rw [hf] at h
      cases h
    | ok c =>
      rw [hf] at h
      obtain ⟨rfl, ha⟩ := hstep a b c hf
      obtain ⟨hfold, hl⟩ := ih h
      exact ⟨hfold, List.forall_mem_cons.2 ⟨ha, hl⟩⟩

theorem resolveValue_eq_replaceInTurn (h : s.resolveValue block key value = .ok resolved) :
    resolved = s.replaceInTurn block (references block value) value ∧ key ∉ references block value := by
  let put (text reference : Text) : Text :=
    Text.replaceAll (Placeholder.text block reference) (s.target reference) text
  obtain ⟨hfold, hne⟩ := foldlM_ok_eq_foldl (g := put) (Q := (· ≠ key)) h
    fun reference text text' h => by
      split at h
      · cases h
      · next hne =>
        split at h
        · cases h
        · next target htarget =>
          cases h
          exact ⟨by simp [put, Settings.target, htarget], hne⟩
  exact ⟨hfold, fun hmem => hne key hmem rfl⟩

/-- The value of a key does not stand for the key's own placeholder: it would refer to itself. -/
theorem target_ne_text (hblock : ∀ c ∈ block, isKeyChar c = true) (h : s.resolve block = .ok s')
    (hname : IsName key) : s.target key ≠ text block key := by
  intro heq
  rcases get?_of_resolve h key with ⟨hnone, -⟩ | ⟨value, resolved, hvalue, -, hresolve⟩
  · rw [target, hnone] at heq
    cases heq
  · rw [target, hvalue, Option.getD_some] at heq
    obtain ⟨a, b, hquoted⟩ := Text.exists_append_stripQuotes value
    refine (resolveValue_eq_replaceInTurn hresolve).2 ?_
    rw [hquoted, heq, references_append_text hblock hname]
    simp

/-- A value is resolved by replacing its placeholders at once exactly as long as what is put in, and
what it makes with the text around it, holds no placeholder whose turn comes later. -/
theorem resolve_atOnce_iff_undisturbed (hblock : ∀ c ∈ block, isKeyChar c = true)
    (h : s.resolve block = .ok s') (hvalue : s.get? key = some value) :
    ∃ resolved, s'.get? key = some resolved ∧
      resolved = s.replaceInTurn block (references block value) value ∧
      (s.Undisturbed block value → resolved = (Placeholder.pattern block).replace s.target value) ∧
      ((∀ n ≤ (references block value).length,
          s.replaceInTurn block ((references block value).take n) value =
            s.substitute block ((references block value).take n) value) ↔
        s.Undisturbed block value) := by
  rcases get?_of_resolve h key with ⟨hnone, -⟩ | ⟨value', resolved, hvalue', hresolved, hresolve⟩
  · rw [hvalue] at hnone
    cases hnone
  · rw [hvalue] at hvalue'
    cases hvalue'
    have htarget : ∀ reference ∈ references block value, s.target reference ≠ text block reference :=
      fun reference hmem => target_ne_text hblock h (isName_of_mem_references hmem)
    have hiff := replaceInTurn_eq_substitute_iff hblock htarget
    have hturn := (resolveValue_eq_replaceInTurn hresolve).1
    refine ⟨resolved, hresolved, hturn, fun hu => ?_, hiff⟩
    have hall := hiff.2 hu _ (Nat.le_refl _)
    rw [List.take_length] at hall
    rw [hturn, hall, substitute_references]

/-- The placeholder that comes in with `b` is that of a key whose turn is over. -/
theorem resolve_atOnce_iff_undisturbed_of_earlier_reference :
    ∃ s s' : Settings, ∃ value, (∀ c ∈ "k8s".toList, isKeyChar c = true) ∧
      s.resolve "k8s".toList = .ok s' ∧ s.get? "c".toList = some value ∧
      s.Undisturbed "k8s".toList value ∧
      s'.get? "c".toList = some "root:$\x7bk8s.a\x7d/b".toList := by
  obtain ⟨s, hs⟩ : ∃ s : Settings, s = .ofList
      [("a".toList, "'root'".toList), ("b".toList, "$\x7bk8s.a\x7d/b".toList),
        ("c".toList, "$\x7bk8s.a\x7d:$\x7bk8s.b\x7d".toList)] := ⟨_, rfl⟩
  have hblock : ∀ c ∈ "k8s".toList, isKeyChar c = true := List.all_eq_true.1 (by decide)
  obtain ⟨s', hresolve⟩ : ∃ s', s.resolve "k8s".toList = .ok s' := by
    rw [hs]
    exact ⟨_, rfl⟩
  have hvalue : s.get? "c".toList = some "$\x7bk8s.a\x7d:$\x7bk8s.b\x7d".toList := by
    rw [hs]
    rfl
  have hundisturbed : s.Undisturbed "k8s".toList "$\x7bk8s.a\x7d:$\x7bk8s.b\x7d".toList := by
    rw [hs]
    decide +kernel
  obtain ⟨resolved, hresolved, -, hatOnce, -⟩ :=
    resolve_atOnce_iff_undisturbed hblock hresolve hvalue
  refine ⟨s, s', _, hblock, hresolve, hvalue, hundisturbed, ?_⟩
  rw [hresolved, hatOnce hundisturbed, hs]
  decide +kernel

/-- A placeholder that comes in with an earlier reference is replaced when its own turn comes. -/
theorem not_resolve_atOnce_of_later_reference :
    ∃ s s' : Settings, ∃ value, (∀ c ∈ "k8s".toList, isKeyChar c = true) ∧
      s.resolve "k8s".toList = .ok s' ∧ s.get? "c".toList = some value ∧
      s'.get? "c".toList = some "x x".toList ∧
      (Placeholder.pattern "k8s".toList).replace s.target value = "$\x7bk8s.a\x7d x".toList ∧
      s'.get? "c".toList ≠ some ((Placeholder.pattern "k8s".toList).replace s.target value) := by
  refine ⟨.ofList [("a".toList, "'x'".toList), ("b".toList, "$\x7bk8s.a\x7d".toList),
    ("c".toList, "$\x7bk8s.b\x7d $\x7bk8s.a\x7d".toList)], ?_⟩
  refine ⟨_, "$\x7bk8s.b\x7d $\x7bk8s.a\x7d".toList, List.all_eq_true.1 (by decide), rfl, rfl, ?_⟩
  refine ⟨?_, ?_, ?_⟩
  · decide +kernel
  · decide +kernel
  · decide +kernel

end Settings
end HeadJob
