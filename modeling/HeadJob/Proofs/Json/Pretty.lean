import HeadJob.Proofs.Json.Scalar

/-!
Values that are written over several lines are read back.

The reader of a value finds its end, whatever comes after it.  So the parts of a list or an object are
read one after the other, and so are values of which each begins a line.
-/

namespace HeadJob
namespace Json

variable {level levels fuel : Nat} {v : Json} {rest : Text}

/-! ## Parts of lists and objects -/

section Parts

variable {α : Type} {space last t : Text} {first : Bool}

/-- What stands before a part of a list or an object.  No comma stands before the first one. -/
def gap (space : Text) (first : Bool) : Text := if first then space else ',' :: space

/-- Parts as they are written one after the other, and what follows them. -/
def partsText (write : α → Text) (space : Text) : (first : Bool) → List α → Text → Text
  | _, [], t => t
  | first, part :: parts, t => gap space first ++ (write part ++ partsText write space false parts t)

theorem partsText_map {β : Type} (write : α → Text) (f : β → α) (parts : List β) :
    partsText write space first (parts.map f) t = partsText (write ∘ f) space first parts t := by
  induction parts generalizing first with
  | nil => rfl
  | cons part parts ih => rw [List.map_cons, partsText, partsText, ih, Function.comp]

theorem partsText_append (write : α → Text) (parts : List α) (t u : Text) :
    partsText write space first parts t ++ u = partsText write space first parts (t ++ u) := by
  induction parts generalizing first with
  | nil => rfl
  | cons part parts ih => rw [partsText, partsText, List.append_assoc, List.append_assoc, ih]

theorem length_partsText (write : α → Text) (hspace : space ≠ []) (first : Bool) (parts : List α)
    (t : Text) : parts.length + t.length ≤ (partsText write space first parts t).length := by
  have hgap (first : Bool) : 0 < (gap space first).length := by
    cases first with
    | true => exact List.length_pos_iff.2 hspace
    | false => exact Nat.succ_pos _
  induction parts generalizing first with
  | nil => exact Nat.le_of_eq (Nat.zero_add _)
  | cons part parts ih =>
    have hmore := ih false
    have hpart := hgap first
    simp only [partsText, List.length_append, List.length_cons]
    omega

theorem length_write_le (write : α → Text) {parts : List α} {part : α} (h : part ∈ parts)
    (space : Text) (first : Bool) (t : Text) :
    (write part).length ≤ (partsText write space first parts t).length := by
  induction parts generalizing first with
  | nil => cases h
  | cons p parts ih =>
    simp only [partsText, List.length_append]
    rcases List.mem_cons.1 h with rfl | h
    · omega
    · have hmore := ih h false
      omega

theorem endsNumber_partsText (write : α → Text) (space : Text) (parts : List α)
    (ht : EndsNumber t) : EndsNumber (partsText write space false parts t) := by
  cases parts with
  | nil => exact ht
  | cons part parts => exact endsNumber_cons (by decide) _

/-! ### Lists -/

/-- How the text of a value begins: neither with space nor with the mark that closes a list. -/
def BeginsValue (t : Text) : Prop := ∃ c w, t = c :: w ∧ isSpace c = false ∧ c ≠ ']'

section Items

variable {read : Text → Read α} {before : List α}

theorem readItems_last (hlast : ∀ c ∈ last, isSpace c = true) :
    readItems read before (fuel + 1) first (last ++ ']' :: rest) = .ok (before.reverse, rest) := by
  have hskip : skipSpace (last ++ ']' :: rest) = ']' :: rest :=
    skipSpace_append_cons hlast (by decide) rest
  simp [readItems, hskip]

theorem readItems_item {v : α} {w : Text} (hspace : ∀ c ∈ space, isSpace c = true)
    (hw : BeginsValue w) (hread : read w = .ok (v, t)) :
    readItems read before (fuel + 1) first (gap space first ++ w) =
      readItems read (v :: before) fuel false t := by
  obtain ⟨c, w, rfl, hc, hclose⟩ := hw
  have hskip : skipSpace (space ++ c :: w) = c :: w := skipSpace_append_cons hspace hc w
  cases first <;> simp [gap, readItems, skipSpace_comma, hskip, hclose, hread]

/-- The items of a list are read one after the other. -/
theorem readItems_partsText (write : α → Text) {items : List α} (before : List α) (first : Bool)
    (hspace : ∀ c ∈ space, isSpace c = true) (hlast : ∀ c ∈ last, isSpace c = true)
    (hwrite : ∀ v ∈ items, BeginsValue (write v))
    (hread : ∀ v ∈ items, ∀ t, EndsNumber t → read (write v ++ t) = .ok (v, t))
    (hfuel : items.length < fuel) :
    readItems read before fuel first (partsText write space first items (last ++ ']' :: rest)) =
      .ok (before.reverse ++ items, rest) := by
  have hend : EndsNumber (last ++ ']' :: rest) :=
    endsNumber_space hlast (endsNumber_cons (by decide) rest)
  obtain ⟨fuel, rfl⟩ : ∃ n, fuel = n + 1 := ⟨fuel - 1, by omega⟩
  induction items generalizing before first fuel with
  | nil =>
    rw [List.append_nil]
    exact readItems_last hlast
  | cons v items ih =>
    obtain ⟨fuel, rfl⟩ : ∃ n, fuel = n + 1 := ⟨fuel - 1, by simp at hfuel; omega⟩
    have hv := hread v List.mem_cons_self _ (endsNumber_partsText write space items hend)
    have hbegins : BeginsValue (write v ++ partsText write space false items (last ++ ']' :: rest)) := by
      obtain ⟨c, w, hw, hc⟩ := hwrite v List.mem_cons_self
      exact ⟨c, w ++ _, by rw [hw, List.cons_append], hc⟩
    have hmore := ih (v :: before) false (fun u hu => hwrite u (List.mem_cons_of_mem v hu))
      (fun u hu => hread u (List.mem_cons_of_mem v hu)) fuel (by simpa using hfuel)
    rw [partsText, readItems_item hspace hbegins hv, hmore]
    simp

end Items

/-! ### Objects -/

/-- A member as it is written: the name in quotes, a colon, and its value. -/
def memberText (name : String) (w : Text) : Text := (quoted name).toList ++ ':' :: w

section Members

variable {read : String → Text → Read α} {before : List (String × α)}

theorem readMembers_last (hlast : ∀ c ∈ last, isSpace c = true) :
    readMembers read before (fuel + 1) first (last ++ '}' :: rest) = .ok (before.reverse, rest) := by
  have hskip : skipSpace (last ++ '}' :: rest) = '}' :: rest :=
    skipSpace_append_cons hlast (by decide) rest
  simp [readMembers, hskip]

theorem readMembers_member {name : String} {v : α} {w : Text}
    (hspace : ∀ c ∈ space, isSpace c = true) (hread : read name w = .ok (v, t)) :
    readMembers read before (fuel + 1) first (gap space first ++ memberText name w) =
      readMembers read ((name, v) :: before) fuel false t := by
  have hquote (t : Text) : skipSpace (space ++ '"' :: t) = '"' :: t :=
    skipSpace_append_cons hspace (by decide) t
  have hcolon : skipSpace (':' :: w) = ':' :: w := skipSpace_of_not_isSpace (by decide) w
  cases first <;>
    simp [gap, memberText, quoted, readMembers, skipSpace_comma, hquote, hcolon,
      readString_flatMap_escapeChar, hread]

/-- The members of an object are read one after the other. -/
theorem readMembers_partsText (write : α → Text) {members : List (String × α)}
    (before : List (String × α)) (first : Bool) (hspace : ∀ c ∈ space, isSpace c = true)
    (hlast : ∀ c ∈ last, isSpace c = true)
    (hread : ∀ m ∈ members, ∀ t, EndsNumber t → read m.1 (write m.2 ++ t) = .ok (m.2, t))
    (hfuel : members.length < fuel) :
    readMembers read before fuel first
        (partsText (fun m => memberText m.1 (write m.2)) space first members (last ++ '}' :: rest)) =
      .ok (before.reverse ++ members, rest) := by
  have hend : EndsNumber (last ++ '}' :: rest) :=
    endsNumber_space hlast (endsNumber_cons (by decide) rest)
  obtain ⟨fuel, rfl⟩ : ∃ n, fuel = n + 1 := ⟨fuel - 1, by omega⟩
  induction members generalizing before first fuel with
  | nil =>
    rw [List.append_nil]
    exact readMembers_last hlast
  | cons m members ih =>
    obtain ⟨fuel, rfl⟩ : ∃ n, fuel = n + 1 := ⟨fuel - 1, by simp at hfuel; omega⟩
    have hm := hread m List.mem_cons_self _
      (endsNumber_partsText (fun m => memberText m.1 (write m.2)) space members hend)
    have hmore := ih (m :: before) false (fun n hn => hread n (List.mem_cons_of_mem m hn)) fuel
      (by simpa using hfuel)
    rw [partsText, memberText, List.append_assoc, List.cons_append, ← memberText,
      readMembers_member hspace hm, hmore]
    simp

end Members

end Parts

/-! ## The text of a value -/

theorem prettyItems_eq_map (level : Nat) (items : List Json) :
    prettyItems level items = items.map (prettyAt level) := by
  induction items with
  | nil => rw [prettyItems, List.map_nil]
  | cons v items ih => rw [prettyItems, List.map_cons, ih]

theorem prettyMembers_eq_map (level : Nat) (members : List (String × Json)) :
    prettyMembers level members =
      members.map fun m => quoted m.1 ++ ": " ++ prettyAt level m.2 := by
  induction members with
  | nil => rw [prettyMembers, List.map_nil]
  | cons m members ih => rw [prettyMembers, List.map_cons, ih]

/-- The space before the mark that closes a list or an object.  There is none without parts. -/
def lastGap {α : Type} (level : Nat) (parts : List α) : Text :=
  if parts.isEmpty then [] else (newline level).toList

theorem isSpace_of_mem_lastGap {α : Type} {parts : List α} :
    ∀ c ∈ lastGap level parts, isSpace c = true := by
  unfold lastGap
  split
  · exact fun _ hc => absurd hc List.not_mem_nil
  · exact isSpace_of_mem_newline

theorem append_intercalate (space t part : Text) (parts : List Text) :
    space ++ ((',' :: space).intercalate (part :: parts) ++ t) =
      partsText id space true (part :: parts) t := by
  induction parts generalizing part with
  | nil => simp [partsText, gap]
  | cons next parts ih =>
    have hnext := ih next
    rw [partsText] at hnext ⊢
    rw [List.intercalate_cons_cons, partsText]
    simp only [gap, if_true, Bool.false_eq_true, if_false, id_eq, List.append_assoc,
      List.cons_append] at hnext ⊢
    rw [hnext]

theorem toList_block (opening closing : String) (level : Nat) (parts : List String) :
    (block opening closing level parts).toList =
      opening.toList ++ partsText String.toList (newline (level + 1)).toList true parts
        (lastGap level parts ++ closing.toList) := by
  cases parts with
  | nil => simp [block, partsText, lastGap]
  | cons part parts =>
    have hparts := append_intercalate (newline (level + 1)).toList
      ((newline level).toList ++ closing.toList) part.toList (parts.map String.toList)
    rw [← List.map_cons, partsText_map, Function.id_comp] at hparts
    simpa [block, lastGap, String.toList_intercalate] using hparts

theorem textAt_array (level : Nat) (items : List Json) :
    textAt level (array items) =
      '[' :: partsText (textAt (level + 1)) (newline (level + 1)).toList true items
        (lastGap level items ++ [']']) := by
  have hwrite : String.toList ∘ prettyAt (level + 1) = textAt (level + 1) := rfl
  rw [textAt, prettyAt, toList_block, prettyItems_eq_map, partsText_map, hwrite, lastGap, lastGap,
    List.isEmpty_map]
  rfl

/-- A member of an object as it is written at a level. -/
def memberAt (level : Nat) (m : String × Json) : Text := memberText m.1 (' ' :: textAt level m.2)

theorem textAt_object (level : Nat) (members : List (String × Json)) :
    textAt level (object members) =
      '{' :: partsText (memberAt (level + 1)) (newline (level + 1)).toList true members
        (lastGap level members ++ ['}']) := by
  have hwrite : String.toList ∘ (fun m : String × Json =>
      quoted m.1 ++ ": " ++ prettyAt (level + 1) m.2) = memberAt (level + 1) := by
    funext m
    simp [memberAt, memberText, textAt]
  rw [textAt, prettyAt, toList_block, prettyMembers_eq_map, partsText_map, hwrite, lastGap, lastGap,
    List.isEmpty_map]
  rfl

theorem length_items_lt (level : Nat) (items : List Json) :
    items.length < (textAt level (array items)).length := by
  have hparts := length_partsText (textAt (level + 1)) (newline_ne_nil (level + 1)) true items
    (lastGap level items ++ [']'])
  rw [textAt_array, List.length_cons]
  omega

theorem length_item_lt {items : List Json} (hv : v ∈ items) (level : Nat) :
    (textAt (level + 1) v).length < (textAt level (array items)).length := by
  have hpart := length_write_le (textAt (level + 1)) hv (newline (level + 1)).toList true
    (lastGap level items ++ [']'])
  rw [textAt_array, List.length_cons]
  omega

theorem length_members_lt (level : Nat) (members : List (String × Json)) :
    members.length < (textAt level (object members)).length := by
  have hparts := length_partsText (memberAt (level + 1)) (newline_ne_nil (level + 1)) true members
    (lastGap level members ++ ['}'])
  rw [textAt_object, List.length_cons]
  omega

theorem length_member_lt {members : List (String × Json)} {m : String × Json} (hm : m ∈ members)
    (level : Nat) : (textAt (level + 1) m.2).length < (textAt level (object members)).length := by
  have hpart := length_write_le (memberAt (level + 1)) hm (newline (level + 1)).toList true
    (lastGap level members ++ ['}'])
  rw [textAt_object, List.length_cons]
  simp only [memberAt, memberText, List.length_append, List.length_cons] at hpart ⊢
  omega

theorem beginsValue_textAt (h : v.Fits levels) (level : Nat) : BeginsValue (textAt level v) := by
  have hscalar (h : v.Fits 0) : BeginsValue (textAt level v) := by
    obtain ⟨c, w, -, htext, ⟨hc, -, hclose, -⟩, -⟩ := exists_scalar_of_fits h level
    exact ⟨c, w, htext, hc, hclose⟩
  cases v with
  | array items => exact ⟨'[', _, textAt_array level items, by decide⟩
  | object members => exact ⟨'{', _, textAt_object level members, by decide⟩
  | number literal => exact hscalar (by cases levels <;> exact h)
  | _ => exact hscalar trivial

/-! ## What is written is read -/

section Inside

variable {inside : Option (Shape → Text → Read Json)} {read : Shape → Text → Read Json}

theorem readWith_anything_space {space : Text} (h : ∀ c ∈ space, isSpace c = true) (t : Text) :
    readWith fuel inside .anything (space ++ t) = readWith fuel inside .anything t := by
  simp only [readWith, skipSpace_append h]

theorem readWith_anything_scalar {c : Char} (h : BeginsScalar c) (t : Text) :
    readWith fuel inside .anything (c :: t) =
      (Scalar.read (c :: t)).map fun (s, rest) => (s.toJson, rest) := by
  obtain ⟨hc, hlist, -, hobject⟩ := h
  simp [readWith, skipSpace_of_not_isSpace hc, hlist, hobject]

theorem readWith_of_fits_zero (h : v.Fits 0) (hrest : EndsNumber rest) :
    readWith fuel inside .anything (textAt level v ++ rest) = .ok (v, rest) := by
  obtain ⟨c, t, s, htext, hc, rfl, hread⟩ := exists_scalar_of_fits h level
  rw [htext, List.cons_append, readWith_anything_scalar hc, hread rest hrest]
  rfl

theorem readWith_array {items : List Json}
    (hwrite : ∀ u ∈ items, BeginsValue (textAt (level + 1) u))
    (hread : ∀ u ∈ items, ∀ t, EndsNumber t →
      read .anything (textAt (level + 1) u ++ t) = .ok (u, t))
    (hfuel : items.length < fuel) :
    readWith fuel (some read) .anything (textAt level (array items) ++ rest) =
      .ok (array items, rest) := by
  have hskip (t : Text) : skipSpace ('[' :: t) = '[' :: t := skipSpace_of_not_isSpace (by decide) t
  rw [textAt_array, List.cons_append, partsText_append, List.append_assoc, List.singleton_append]
  simp only [readWith, hskip]
  rw [readItems_partsText _ [] true isSpace_of_mem_newline isSpace_of_mem_lastGap hwrite hread hfuel]
  rfl

theorem readWith_object {members : List (String × Json)}
    (hread : ∀ m ∈ members, ∀ t, EndsNumber t →
      read .anything (' ' :: textAt (level + 1) m.2 ++ t) = .ok (m.2, t))
    (hfuel : members.length < fuel) :
    readWith fuel (some read) .anything (textAt level (object members) ++ rest) =
      .ok (object members, rest) := by
  have hskip (t : Text) : skipSpace ('{' :: t) = '{' :: t := skipSpace_of_not_isSpace (by decide) t
  have hmembers : readMembers (fun _ => read .anything) [] fuel true
      (partsText (memberAt (level + 1)) (newline (level + 1)).toList true members
        (lastGap level members ++ '}' :: rest)) = .ok (members, rest) :=
    readMembers_partsText (fun u => ' ' :: textAt (level + 1) u) [] true isSpace_of_mem_newline
      isSpace_of_mem_lastGap hread hfuel
  rw [textAt_object, List.cons_append, partsText_append, List.append_assoc, List.singleton_append]
  simp only [readWith, hskip, hmembers]
  rfl

end Inside

theorem readAs_anything_space {space : Text} (h : ∀ c ∈ space, isSpace c = true) (t : Text) :
    readAs fuel levels .anything (space ++ t) = readAs fuel levels .anything t := by
  cases levels with
  | zero => exact readWith_anything_space h t
  | succ levels => exact readWith_anything_space h t

/-- A value is read back from the text that it is written as. -/
theorem readAs_textAt (h : v.Fits levels) (hfuel : (textAt level v).length ≤ fuel)
    (hrest : EndsNumber rest) :
    readAs fuel levels .anything (textAt level v ++ rest) = .ok (v, rest) := by
  -- the parts of a value lie one level deeper, and there is room for one level less
  induction levels generalizing level v rest with
  | zero => exact readWith_of_fits_zero h hrest
  | succ levels ih =>
    cases v with
    | array items =>
      have hread : ∀ u ∈ items, ∀ t, EndsNumber t →
          readAs fuel levels .anything (textAt (level + 1) u ++ t) = .ok (u, t) := by
        intro u hu t ht
        have hlt := length_item_lt hu level
        exact ih (h u hu) (by omega) ht
      exact readWith_array (fun u hu => beginsValue_textAt (h u hu) (level + 1)) hread
        (Nat.lt_of_lt_of_le (length_items_lt level items) hfuel)
    | object members =>
      have hread : ∀ m ∈ members, ∀ t, EndsNumber t →
          readAs fuel levels .anything ([' '] ++ (textAt (level + 1) m.2 ++ t)) = .ok (m.2, t) := by
        intro m hm t ht
        have hlt := length_member_lt hm level
        rw [readAs_anything_space (List.forall_mem_singleton.2 rfl)]
        exact ih (h m hm) (by omega) ht
      exact readWith_object hread (Nat.lt_of_lt_of_le (length_members_lt level members) hfuel)
    | number literal => exact readWith_of_fits_zero h hrest
    | _ => exact readWith_of_fits_zero (by trivial) hrest

/-! ## Several values -/

/-- Reads values one after the other up to the end of a text, so many at most.  Space may stand before
and after each. -/
def readEach : (fuel : Nat) → Text → Except ReadFault (List Json)
  | 0, t => .error ⟨.endInValue, t, 0⟩
  | fuel + 1, t =>
    match skipSpace t with
    | [] => .ok []
    | t =>
      match readAs (fuelFor t) maxLevels .anything t with
      | .error e => .error e
      | .ok (v, rest) => (readEach fuel rest).map (v :: ·)

/-- Reads all values of a text.  Each has a character at least. -/
def readDocuments (t : Text) : Except ReadFault (List Json) := readEach (t.length + 1) t

theorem readEach_of_space {space : Text} (h : ∀ c ∈ space, isSpace c = true) :
    readEach (fuel + 1) space = .ok [] := by
  have hskip : skipSpace space = [] := by
    rw [← List.append_nil space, skipSpace_append h]
    rfl
  simp only [readEach, hskip]

theorem readEach_newline (t : Text) : readEach (fuel + 1) ('\n' :: t) = readEach (fuel + 1) t := by
  have hskip : skipSpace ('\n' :: t) = skipSpace t :=
    skipSpace_append (List.forall_mem_singleton.2 rfl) t
  simp only [readEach, hskip]

theorem readEach_pretty (h : v.Fits maxLevels) (hrest : EndsNumber rest) :
    readEach (fuel + 1) (v.pretty.toList ++ rest) = (readEach fuel rest).map (v :: ·) := by
  have hfuel : (textAt 0 v).length ≤ fuelFor (textAt 0 v ++ rest) := by
    rw [fuelFor, List.length_append]
    omega
  have hread := readAs_textAt h hfuel hrest
  obtain ⟨c, w, htext, hc, -⟩ := beginsValue_textAt h 0
  rw [htext, List.cons_append] at hread
  rw [pretty, ← textAt, htext, List.cons_append, readEach, skipSpace_of_not_isSpace hc]
  dsimp only
  rw [hread]

theorem readEach_intercalate {vs : List Json} {space : Text} (h : ∀ v ∈ vs, v.Fits maxLevels)
    (hspace : ∀ c ∈ space, isSpace c = true) (hfuel : vs.length < fuel) :
    readEach fuel (['\n'].intercalate (vs.map (·.pretty.toList)) ++ space) = .ok vs := by
  obtain ⟨fuel, rfl⟩ : ∃ n, fuel = n + 1 := ⟨fuel - 1, by omega⟩
  induction vs generalizing fuel with
  | nil => exact readEach_of_space hspace
  | cons v vs ih =>
    obtain ⟨fuel, rfl⟩ : ∃ n, fuel = n + 1 := ⟨fuel - 1, by simp at hfuel; omega⟩
    have hv := h v List.mem_cons_self
    cases vs with
    | nil =>
      rw [List.map_singleton, List.intercalate_singleton,
        readEach_pretty hv (endsNumber_of_space hspace), readEach_of_space hspace]
      rfl
    | cons u vs =>
      have hmore := ih (fun w hw => h w (List.mem_cons_of_mem v hw)) fuel (by simpa using hfuel)
      have hline (t : Text) : EndsNumber ('\n' :: t) := endsNumber_cons (by decide) t
      rw [List.map_cons] at hmore
      rw [List.map_cons, List.map_cons, List.intercalate_cons_cons, List.append_assoc,
        List.append_assoc, List.singleton_append, readEach_pretty hv (hline _), readEach_newline, hmore]
      rfl

theorem length_le_intercalate {parts : List Text} (h : ∀ part ∈ parts, part ≠ []) (sep : Text) :
    parts.length ≤ (sep.intercalate parts).length := by
  induction parts with
  | nil => exact Nat.zero_le _
  | cons part parts ih =>
    have hpart := List.length_pos_iff.2 (h part List.mem_cons_self)
    have hmore := ih fun p hp => h p (List.mem_cons_of_mem part hp)
    cases parts with
    | nil =>
      rw [List.intercalate_singleton]
      exact hpart
    | cons next parts =>
      rw [List.intercalate_cons_cons, List.length_append, List.length_append, List.length_cons]
      omega

/-- Values that are written one after the other, each from a line of its own on, are read as these and
no others. -/
theorem readDocuments_intercalate (vs : List Json) {space : Text} (h : ∀ v ∈ vs, v.Fits maxLevels)
    (hspace : ∀ c ∈ space, isSpace c = true) :
    readDocuments (['\n'].intercalate (vs.map (·.pretty.toList)) ++ space) = .ok vs := by
  have hwritten : ∀ part ∈ vs.map (·.pretty.toList), part ≠ [] := by
    intro part hpart hnil
    obtain ⟨v, hv, rfl⟩ := List.mem_map.1 hpart
    obtain ⟨c, w, hw, -⟩ := beginsValue_textAt (h v hv) 0
    rw [pretty, ← textAt, hw] at hnil
    cases hnil
  have hlength := length_le_intercalate hwritten ['\n']
  rw [List.length_map] at hlength
  refine readEach_intercalate h hspace ?_
  rw [List.length_append]
  omega

end Json
end HeadJob
