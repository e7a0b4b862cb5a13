import HeadJob.Json.Shape

/-!
Values without parts are read back.

A value is read as it was written if its numbers are whole, without sign, and fit into 64 bits, and if
its parts lie inside each other no deeper than is read.  This is about those that have no parts.
-/

namespace HeadJob
namespace Json

/-! ## Space -/

theorem skipSpace_of_not_isSpace {c : Char} (h : isSpace c = false) (t : Text) :
    skipSpace (c :: t) = c :: t := by
  rw [skipSpace, List.dropWhile_cons_of_neg (by simp [h])]

theorem skipSpace_append {space : Text} (h : ∀ c ∈ space, isSpace c = true) (t : Text) :
    skipSpace (space ++ t) = skipSpace t :=
  List.dropWhile_append_of_pos h

theorem skipSpace_comma (t : Text) : skipSpace (',' :: t) = ',' :: t :=
  skipSpace_of_not_isSpace (by decide) t

theorem skipSpace_append_cons {space : Text} {c : Char}
    (hspace : ∀ c ∈ space, isSpace c = true)
    (hc : isSpace c = false) (t : Text) : skipSpace (space ++ c :: t) = c :: t := by
  rw [skipSpace_append hspace, skipSpace_of_not_isSpace hc]

theorem toList_newline (level : Nat) :
    (newline level).toList = '\n' :: List.replicate (2 * level) ' ' := by
  simp [newline]

theorem newline_ne_nil (level : Nat) : (newline level).toList ≠ [] := by simp [toList_newline]

theorem isSpace_of_mem_newline {level : Nat} : ∀ c ∈ (newline level).toList, isSpace c = true := by
  intro c hc
  rw [toList_newline, List.mem_cons, List.mem_replicate] at hc
  rcases hc with rfl | ⟨-, rfl⟩ <;> rfl

/-! ## Whole numbers -/

/-- A number ends where such a text begins. -/
def EndsNumber (t : Text) : Prop :=
  ∀ c ∈ t.head?, c.isDigit = false ∧ c ≠ '.' ∧ c ≠ 'e' ∧ c ≠ 'E'

theorem endsNumber_cons {c : Char} (h : c.isDigit = false ∧ c ≠ '.' ∧ c ≠ 'e' ∧ c ≠ 'E') (t : Text) :
    EndsNumber (c :: t) := by
  rintro d ⟨⟩
  exact h

theorem endsNumber_space {space t : Text} (h : ∀ c ∈ space, isSpace c = true) (ht : EndsNumber t) :
    EndsNumber (space ++ t) := by
  cases space with
  | nil => exact ht
  | cons d space =>
    have hd := h d List.mem_cons_self
    simp only [isSpace, Bool.or_eq_true, beq_iff_eq] at hd
    rcases hd with ((rfl | rfl) | rfl) | rfl <;> exact endsNumber_cons (by decide) _

theorem endsNumber_of_space {space : Text} (h : ∀ c ∈ space, isSpace c = true) : EndsNumber space := by
  have hnil : EndsNumber [] := fun _ hc => nomatch hc
  have hspace := endsNumber_space h hnil
  rwa [List.append_nil] at hspace

theorem EndsNumber.not_beginsWithDigit {t : Text} (h : EndsNumber t) :
    Amount.beginsWithDigit t = false := by
  cases t with
  | nil => rfl
  | cons c t => simpa [Amount.beginsWithDigit] using (h c rfl).1

namespace Amount

theorem le_ofDigitChars (ds : Text) (n : Nat) : n ≤ Nat.ofDigitChars 10 ds n := by
  rw [Nat.ofDigitChars_eq_ofDigitChars_zero]
  have hpos : 0 < 10 ^ ds.length := Nat.pow_pos (by decide)
  calc n = 1 * n := (Nat.one_mul n).symm
    _ ≤ 10 ^ ds.length * n := Nat.mul_le_mul_right n hpos
    _ ≤ _ := Nat.le_add_right _ _

/-- Digits are taken to the last one, if the number that they stand for is below the limit. -/
theorem takeDigits_append {limit n : Nat} {ds rest : Text} (hds : ∀ c ∈ ds, c.isDigit = true)
    (hlimit : Nat.ofDigitChars 10 ds n < limit) (hrest : beginsWithDigit rest = false) (count : Nat) :
    takeDigits limit n count (ds ++ rest) =
      (Nat.ofDigitChars 10 ds n, count + ds.length, rest) := by
  induction ds generalizing n count with
  | nil =>
    cases rest with
    | nil => rfl
    | cons c rest =>
      have hc : c.isDigit = false := hrest
      simp [takeDigits, hc]
  | cons c ds ih =>
    rw [Nat.ofDigitChars_cons] at hlimit
    have hc : c.isDigit = true := hds c List.mem_cons_self
    have hbelow : 10 * n + digitValue c < limit :=
      Nat.lt_of_le_of_lt (le_ofDigitChars ds (10 * n + digitValue c)) hlimit
    have hmore := ih (fun d hd => hds d (List.mem_cons_of_mem c hd)) hlimit (count + 1)
    rw [List.cons_append, takeDigits, hc, Bool.true_and, if_pos (by simpa using hbelow),
      Nat.ofDigitChars_cons, List.length_cons, Nat.add_comm ds.length 1, ← Nat.add_assoc]
    exact hmore

/-- A positive number does not begin with zero. -/
theorem head?_toDigits_ne {n : Nat} (h : 0 < n) : (Nat.toDigits 10 n).head? ≠ some '0' := by
  induction n using Nat.strongRecOn with
  | ind n ih =>
    by_cases hn : n < 10
    · have hall : ∀ k < 10, 0 < k → (Nat.toDigits 10 k).head? ≠ some '0' := by decide
      exact hall n hn h
    · have htens : (Nat.toDigits 10 (n / 10)).head? ≠ some '0' := ih (n / 10) (by omega) (by omega)
      rw [Nat.toDigits_of_base_le (by decide) (by omega)]
      cases hd : Nat.toDigits 10 (n / 10) with
      | nil => exact absurd hd Nat.toDigits_ne_nil
      | cons d ds => rwa [hd] at htens

theorem readRest_of_endsNumber {rest : Text} (hrest : EndsNumber rest) (n : Nat) :
    readRest false n rest = .ok (whole n, rest) := by
  cases rest with
  | nil => rfl
  | cons c rest =>
    obtain ⟨-, hpoint, he, hE⟩ := hrest c rfl
    unfold readRest
    split
    · next h => exact absurd (List.cons.inj h).1 hpoint
    · next h => exact absurd (List.cons.inj h).1 he
    · next h => exact absurd (List.cons.inj h).1 hE
    · rfl

/-- The digits of a number are read as that number. -/
theorem read_toDigits {n : Nat} (hn : n < significandLimit) {rest : Text} (hrest : EndsNumber rest) :
    read false (Nat.toDigits 10 n ++ rest) = .ok (whole n, rest) := by
  have hbegins : beginsWithDigit rest = false := hrest.not_beginsWithDigit
  rcases Nat.eq_zero_or_pos n with rfl | hpos
  · rw [Nat.toDigits_zero, List.cons_append, List.nil_append, read, if_pos rfl, hbegins]
    exact readRest_of_endsNumber hrest 0
  · have hdigits : ∀ c ∈ Nat.toDigits 10 n, c.isDigit = true := fun _ hc =>
      Nat.isDigit_of_mem_toDigits (by decide) (by decide) hc
    have htake := takeDigits_append hdigits (by rwa [Nat.ofDigitChars_ten_toDigits]) hbegins 0
    have hzero := head?_toDigits_ne hpos
    rw [Nat.ofDigitChars_ten_toDigits] at htake
    cases hd : Nat.toDigits 10 n with
    | nil => exact absurd hd Nat.toDigits_ne_nil
    | cons c ds =>
      rw [hd] at hdigits htake hzero
      have hc : c ≠ '0' := fun h => hzero (congrArg some h)
      rw [List.cons_append] at htake ⊢
      rw [read, if_neg hc, if_pos (hdigits c List.mem_cons_self), htake]
      dsimp only
      rw [hbegins]
      exact readRest_of_endsNumber hrest n

end Amount

/-! ## Values without parts -/

/-- A value whose numbers are whole and fit into 64 bits, and whose parts lie inside each other in so
many levels at most. -/
def Fits : (levels : Nat) → Json → Prop
  | _, null => True
  | _, bool _ => True
  | _, number literal => ∃ n < Amount.significandLimit, literal = toString n
  | _, string _ => True
  | 0, array _ => False
  | 0, object _ => False
  | levels + 1, array items => ∀ v ∈ items, Fits levels v
  | levels + 1, object members => ∀ m ∈ members, Fits levels m.2

@[simp] theorem fits_bool (levels : Nat) (b : Bool) : Fits levels (bool b) := by
  cases levels <;> trivial

@[simp] theorem fits_string (levels : Nat) (s : String) : Fits levels (string s) := by
  cases levels <;> trivial

theorem fits_ofNat {n : Nat} (h : n < Amount.significandLimit) (levels : Nat) :
    Fits levels (ofNat n) := by
  cases levels <;> exact ⟨n, h, rfl⟩

theorem fits_object {levels : Nat} {members : List (String × Json)}
    (h : ∀ m ∈ members, m.2.Fits levels) : Fits (levels + 1) (object members) :=
  h

theorem fits_ofMembers {levels : Nat} {members : List (String × Option Json)}
    (h : ∀ m ∈ members, ∀ v ∈ m.2, v.Fits levels) : Fits (levels + 1) (ofMembers members) := by
  intro m hm
  obtain ⟨⟨name, value⟩, hmem, hvalue⟩ := List.mem_filterMap.1 hm
  obtain ⟨v, hv, rfl⟩ := Option.map_eq_some_iff.1 hvalue
  exact h _ hmem v hv

theorem fits_ofStrings (levels : Nat) (items : List String) : Fits (levels + 1) (ofStrings items) := by
  intro v hv
  obtain ⟨s, -, rfl⟩ := List.mem_map.1 hv
  exact fits_string levels s

theorem Scalar.read_digit {c : Char} (h : c.isDigit = true) (t : Text) :
    Scalar.read (c :: t) = (Amount.read false (c :: t)).map fun (a, rest) => (amount a, rest) := by
  unfold Scalar.read
  split
  case h_1 heq => cases heq
  case h_7 heq =>
    cases heq
    rw [if_pos h]
  -- no other mark that a value begins with is a digit
  all_goals
    next heq =>
      cases heq
      exact absurd h (by decide)

/-- How a value without parts begins: neither with space nor with a mark of a list or an object. -/
def BeginsScalar (c : Char) : Prop := isSpace c = false ∧ c ≠ '[' ∧ c ≠ ']' ∧ c ≠ '{'

instance (c : Char) : Decidable (BeginsScalar c) := inferInstanceAs (Decidable (_ ∧ _))

theorem ne_of_isDigit {c d : Char} (hc : c.isDigit = true) (hd : d.isDigit = false) : c ≠ d := by
  rintro rfl
  rw [hc] at hd
  cases hd

theorem beginsScalar_of_isDigit {c : Char} (h : c.isDigit = true) : BeginsScalar c := by
  have hne {d : Char} (hd : d.isDigit = false) : c ≠ d := ne_of_isDigit h hd
  refine ⟨?_, hne (by decide), hne (by decide), hne (by decide)⟩
  have hspace : c ≠ ' ' := hne (by decide)
  have hnewline : c ≠ '\n' := hne (by decide)
  have htab : c ≠ '\t' := hne (by decide)
  have hreturn : c ≠ '\r' := hne (by decide)
  simp [isSpace, hspace, hnewline, htab, hreturn]

/-- A value as it is written at a level. -/
def textAt (level : Nat) (v : Json) : Text := (prettyAt level v).toList

/-- A value without parts is told by its first character. -/
theorem exists_scalar_of_fits {v : Json} (h : v.Fits 0) (level : Nat) :
    ∃ c t s, textAt level v = c :: t ∧ BeginsScalar c ∧ s.toJson = v ∧
      ∀ rest, EndsNumber rest → Scalar.read (c :: (t ++ rest)) = .ok (s, rest) := by
  cases v with
  | null =>
    refine ⟨'n', "ull".toList, .null, by rw [textAt, prettyAt]; rfl, by decide, rfl, fun rest _ => ?_⟩
    rw [Scalar.read, skipWord_append]
    rfl
  | bool b =>
    cases b with
    | true =>
      refine ⟨'t', "rue".toList, .flag true, by rw [textAt, prettyAt]; rfl, by decide, rfl, fun rest _ => ?_⟩
      rw [Scalar.read, skipWord_append]
      rfl
    | false =>
      refine ⟨'f', "alse".toList, .flag false, by rw [textAt, prettyAt]; rfl, by decide, rfl, fun rest _ => ?_⟩
      rw [Scalar.read, skipWord_append]
      rfl
  | number literal =>
    obtain ⟨n, hn, rfl⟩ := h
    have htext : textAt level (number (toString n)) = Nat.toDigits 10 n := by
      rw [textAt, prettyAt, Nat.toString_eq_ofList_toDigits, String.toList_ofList]
    cases hd : Nat.toDigits 10 n with
    | nil => exact absurd hd Nat.toDigits_ne_nil
    | cons c ds =>
      have hc : c.isDigit = true :=
        Nat.isDigit_of_mem_toDigits (by decide) (by decide) (hd ▸ List.mem_cons_self)
      refine ⟨c, ds, .amount (.whole n), htext.trans hd, beginsScalar_of_isDigit hc, rfl, ?_⟩
      intro rest hrest
      rw [Scalar.read_digit hc, ← List.cons_append, ← hd, Amount.read_toDigits hn hrest]
      rfl
  | string s =>
    refine ⟨'"', s.toList.flatMap escapeChar ++ ['"'], .text s, by simp [textAt, prettyAt, quoted],
      by decide,
      rfl, fun rest _ => ?_⟩
    rw [Scalar.read, List.append_assoc, List.singleton_append, readString_flatMap_escapeChar,
      List.reverse_nil, List.nil_append, String.ofList_toList]
    rfl
  | array items => cases h
  | object members => cases h

end Json
end HeadJob
