import Mathlib.Data.List.TakeWhile
import HeadJob.Proofs.Number.Overflow

/-!
The grammar of decimal numerals, and that the reader follows it.

A numeral has an optional sign, digits with an optional point, and an optional exponent.  What it
stands for is exact.  The words for infinity and for no number stand for no number.
-/

namespace HeadJob

namespace Numeral

def AreDigits (t : Text) : Prop := ∀ c ∈ t, c.isDigit = true

/-- An optional sign, and whether it is the negative one. -/
inductive Sign : Text → Bool → Prop
  | none : Sign [] false
  | plus : Sign ['+'] false
  | minus : Sign ['-'] true

def signed {α : Type} [Neg α] (negative : Bool) (x : α) : α := if negative then -x else x

/-- An optional exponent of ten. -/
inductive Exponent : Text → ℤ → Prop
  | none : Exponent [] 0
  | written {mark : Char} {sign ds : Text} {negative : Bool} (hmark : mark = 'e' ∨ mark = 'E')
      (hsign : Sign sign negative) (hne : ds ≠ []) (hds : AreDigits ds) :
      Exponent (mark :: (sign ++ ds)) (signed negative (Nat.ofDigitChars 10 ds 0 : ℤ))

/-- A numeral without its sign. -/
inductive Unsigned : Text → ℚ → Prop
  | whole {ds exp : Text} {e : ℤ} (hne : ds ≠ []) (hds : AreDigits ds) (he : Exponent exp e) :
      Unsigned (ds ++ exp) (Nat.ofDigitChars 10 ds 0 * (10 : ℚ) ^ e)
  | pointed {ds part exp : Text} {e : ℤ} (hne : ds ++ part ≠ []) (hds : AreDigits ds)
      (hpart : AreDigits part) (he : Exponent exp e) :
      Unsigned (ds ++ '.' :: (part ++ exp))
        (Nat.ofDigitChars 10 (ds ++ part) 0 * (10 : ℚ) ^ (e - part.length))

/-- A text is a numeral that stands for a number. -/
inductive Denotes : Text → ℚ → Prop
  | intro {sign t : Text} {negative : Bool} {q : ℚ} (hsign : Sign sign negative)
      (h : Unsigned t q) : Denotes (sign ++ t) (signed negative q)

/-! ## Signs -/

variable {t : Text}

/-- Whether a sign is negative, and what follows it. -/
def splitSign : Text → Bool × Text
  | '-' :: t => (true, t)
  | '+' :: t => (false, t)
  | t => (false, t)

theorem exists_sign (t : Text) :
    ∃ sign, t = sign ++ (splitSign t).2 ∧ Sign sign (splitSign t).1 := by
  unfold splitSign
  split
  · exact ⟨['-'], rfl, .minus⟩
  · exact ⟨['+'], rfl, .plus⟩
  · exact ⟨[], rfl, .none⟩

theorem splitSign_of_unsigned (hminus : ∀ r, t ≠ '-' :: r) (hplus : ∀ r, t ≠ '+' :: r) :
    splitSign t = (false, t) := by
  unfold splitSign
  split
  next r => exact absurd rfl (hminus r)
  next r => exact absurd rfl (hplus r)
  next => rfl

theorem splitSign_append {sign : Text} {negative : Bool} (hsign : Sign sign negative)
    (ht : ∀ c ∈ t.head?, c ≠ '-' ∧ c ≠ '+') : splitSign (sign ++ t) = (negative, t) := by
  cases hsign with
  | plus => rfl
  | minus => rfl
  | none =>
    rw [List.nil_append]
    refine splitSign_of_unsigned (fun r hr => ?_) (fun r hr => ?_)
    · exact (ht '-' (by rw [hr]; rfl)).1 rfl
    · exact (ht '+' (by rw [hr]; rfl)).2 rfl

theorem not_sign_of_isDigit {c : Char} (h : c.isDigit = true) : c ≠ '-' ∧ c ≠ '+' := by
  constructor <;> rintro rfl <;> exact absurd h (by decide)

/-! ## Digits -/

theorem toLower_of_isDigit {c : Char} (h : c.isDigit = true) : c.toLower = c := by
  unfold Char.isDigit at h
  unfold Char.toLower
  rw [dif_neg]
  rintro ⟨hlow, -⟩
  simp only [Bool.and_eq_true, decide_eq_true_eq] at h
  exact absurd (UInt32.le_trans hlow h.2) (by decide)

theorem toLower_eq_e_iff {c : Char} : c.toLower = 'e' ↔ c = 'e' ∨ c = 'E' := by
  constructor
  · intro h
    unfold Char.toLower at h
    split at h
    next =>
      have hval : c.val + 32 = 101 := congrArg Char.val h
      refine .inr (Char.ext ?_)
      calc c.val = c.val + 32 - 32 := (UInt32.add_sub_cancel _ _).symm
        _ = 69 := by rw [hval]; rfl
    next => exact .inl h
  · rintro (rfl | rfl) <;> decide

theorem areDigits_takeWhile (t : Text) : AreDigits (t.takeWhile Char.isDigit) := fun _ hc =>
  List.mem_takeWhile_imp hc

theorem span_digits {ds : Text} (hds : AreDigits ds) (ht : ∀ c ∈ t.head?, c.isDigit = false) :
    (ds ++ t).takeWhile Char.isDigit = ds ∧ (ds ++ t).dropWhile Char.isDigit = t := by
  rw [List.takeWhile_append_of_pos hds, List.dropWhile_append_of_pos hds]
  cases t with
  | nil => simp
  | cons c t => simp [ht c rfl]

/-! ## Exponents -/

/-- The number of digits that are all there is, with a sign. -/
def signedDigits? (negative : Bool) (ds : Text) : Option ℤ :=
  if ds.isEmpty || !ds.all Char.isDigit then none
  else some (if negative then -(Decimal.ofDigits ds : ℤ) else Decimal.ofDigits ds)

theorem signedDigits?_eq_some_iff {negative : Bool} {ds : Text} {e : ℤ} :
    signedDigits? negative ds = some e ↔
      ds ≠ [] ∧ AreDigits ds ∧ signed negative (Nat.ofDigitChars 10 ds 0 : ℤ) = e := by
  have hcond : (ds.isEmpty || !ds.all Char.isDigit) = true ↔ ¬(ds ≠ [] ∧ AreDigits ds) := by
    simp [AreDigits]
    tauto
  unfold signedDigits?
  split
  next h =>
    simp only [reduceCtorEq, false_iff]
    exact fun hds => hcond.1 h ⟨hds.1, hds.2.1⟩
  next h =>
    have hds := not_not.1 (mt hcond.2 h)
    rw [Option.some_inj]
    exact ⟨fun he => ⟨hds.1, hds.2, he⟩, fun he => he.2.2⟩

theorem exponent?_eq (t : Text) :
    Decimal.exponent? t = signedDigits? (splitSign t).1 (splitSign t).2 := by
  unfold Decimal.exponent?
  split
  next => rfl
  next => rfl
  next hplus hminus =>
    rw [splitSign_of_unsigned hminus hplus]
    rfl

theorem exponent?_eq_some_iff {e : ℤ} :
    Decimal.exponent? t = some e ↔ ∃ sign ds negative, t = sign ++ ds ∧ Sign sign negative ∧
      ds ≠ [] ∧ AreDigits ds ∧ signed negative (Nat.ofDigitChars 10 ds 0 : ℤ) = e := by
  rw [exponent?_eq, signedDigits?_eq_some_iff]
  constructor
  · intro h
    obtain ⟨sign, ht, hsign⟩ := exists_sign t
    exact ⟨sign, _, _, ht, hsign, h⟩
  · rintro ⟨sign, ds, negative, rfl, hsign, hne, hds, he⟩
    rw [splitSign_append hsign fun c hc => not_sign_of_isDigit (hds c (List.mem_of_mem_head? hc))]
    exact ⟨hne, hds, he⟩

/-- The exponent after all digits. -/
def exponentPart? : Text → Option ℤ
  | [] => some 0
  | c :: t => if c.toLower = 'e' then Decimal.exponent? t else none

theorem exponentPart?_eq_some_iff {e : ℤ} : exponentPart? t = some e ↔ Exponent t e := by
  constructor
  · intro h
    unfold exponentPart? at h
    split at h
    next => cases h; exact .none
    next c t =>
      split at h
      next hmark =>
        obtain ⟨sign, ds, negative, rfl, hsign, hne, hds, rfl⟩ := exponent?_eq_some_iff.1 h
        exact .written (toLower_eq_e_iff.1 hmark) hsign hne hds
      next => cases h
  · rintro (_ | ⟨hmark, hsign, hne, hds⟩)
    · rfl
    · rw [exponentPart?, if_pos (toLower_eq_e_iff.2 hmark)]
      exact exponent?_eq_some_iff.2 ⟨_, _, _, rfl, hsign, hne, hds, rfl⟩

theorem Exponent.head {e : ℤ} (h : Exponent t e) :
    ∀ c ∈ t.head?, c.isDigit = false ∧ c ≠ '.' := by
  cases h with
  | none => nofun
  | written hmark =>
    rintro c ⟨⟩
    rcases hmark with rfl | rfl <;> decide

/-! ## Numbers without a sign -/

/-- The number that is made of the digits before and after the point and what follows them. -/
def ofParts? (ds part exp : Text) : Option Decimal :=
  if ds.isEmpty && part.isEmpty then none
  else (exponentPart? exp).map fun e => ⟨Decimal.ofDigits (ds ++ part), e - part.length⟩

theorem ofParts?_eq (ds part exp : Text) :
    (if ds.isEmpty && part.isEmpty then none
      else
        match exp with
        | [] => some ⟨Decimal.ofDigits (ds ++ part), 0 - part.length⟩
        | c :: e =>
          if c.toLower = 'e' then
            (Decimal.exponent? e).map fun e => ⟨Decimal.ofDigits (ds ++ part), e - part.length⟩
          else none) =
      ofParts? ds part exp := by
  unfold ofParts? exponentPart?
  split
  next => rfl
  next =>
    cases exp with
    | nil => rfl
    | cons c e => dsimp only; split <;> rfl

theorem ofText?_of_point {r : Text} (h : t.dropWhile Char.isDigit = '.' :: r) :
    Decimal.ofText? t =
      ofParts? (t.takeWhile Char.isDigit) (r.takeWhile Char.isDigit) (r.dropWhile Char.isDigit) := by
  rw [← ofParts?_eq]
  unfold Decimal.ofText?
  rw [h]
  rfl

theorem ofText?_of_no_point (h : ∀ r, t.dropWhile Char.isDigit ≠ '.' :: r) :
    Decimal.ofText? t = ofParts? (t.takeWhile Char.isDigit) [] (t.dropWhile Char.isDigit) := by
  unfold Decimal.ofText?
  dsimp only
  split
  next r hr => exact absurd hr (h r)
  next => exact ofParts?_eq _ _ _

theorem ofParts?_eq_some_iff {ds part exp : Text} {d : Decimal} :
    ofParts? ds part exp = some d ↔ ds ++ part ≠ [] ∧ ∃ e, Exponent exp e ∧
      (⟨Nat.ofDigitChars 10 (ds ++ part) 0, e - part.length⟩ : Decimal) = d := by
  have hempty : (ds.isEmpty && part.isEmpty) = true ↔ ds ++ part = [] := by simp
  unfold ofParts?
  split
  next h => simp [hempty.1 h]
  next h =>
    rw [Option.map_eq_some_iff]
    simp only [exponentPart?_eq_some_iff]
    exact ⟨fun hd => ⟨mt hempty.2 h, hd⟩, fun hd => hd.2⟩

theorem unsigned_of_ofText? {d : Decimal} (h : Decimal.ofText? t = some d) :
    Unsigned t d.value := by
  have hds := areDigits_takeWhile t
  have hsplit := List.takeWhile_append_dropWhile (p := Char.isDigit) (l := t)
  by_cases hpoint : ∃ r, t.dropWhile Char.isDigit = '.' :: r
  · obtain ⟨r, hr⟩ := hpoint
    rw [ofText?_of_point hr] at h
    obtain ⟨hne, e, he, rfl⟩ := ofParts?_eq_some_iff.1 h
    have hunsigned := Unsigned.pointed hne hds (areDigits_takeWhile r) he
    rwa [List.takeWhile_append_dropWhile, ← hr, hsplit] at hunsigned
  · rw [ofText?_of_no_point (not_exists.1 hpoint)] at h
    obtain ⟨hne, e, he, rfl⟩ := ofParts?_eq_some_iff.1 h
    rw [List.append_nil] at hne
    have hunsigned := Unsigned.whole hne hds he
    rw [hsplit] at hunsigned
    simpa [Decimal.value] using hunsigned

theorem Unsigned.exists_ofText? {q : ℚ} (h : Unsigned t q) :
    ∃ d, Decimal.ofText? t = some d ∧ d.value = q := by
  cases h with
  | @whole ds exp e hne hds he =>
    obtain ⟨htake, hdrop⟩ := span_digits hds fun c hc => (he.head c hc).1
    have hpoint (r : Text) : (ds ++ exp).dropWhile Char.isDigit ≠ '.' :: r := by
      rw [hdrop]
      rintro rfl
      exact (he.head '.' rfl).2 rfl
    rw [ofText?_of_no_point hpoint, htake, hdrop]
    refine ⟨_, ofParts?_eq_some_iff.2 ⟨by rwa [List.append_nil], e, he, rfl⟩, ?_⟩
    simp [Decimal.value]
  | @pointed ds part exp e hne hds hpart he =>
    obtain ⟨htake, hdrop⟩ := span_digits (t := '.' :: (part ++ exp)) hds (by rintro c ⟨⟩; decide)
    obtain ⟨htake', hdrop'⟩ := span_digits hpart fun c hc => (he.head c hc).1
    rw [ofText?_of_point hdrop, htake, htake', hdrop']
    exact ⟨_, ofParts?_eq_some_iff.2 ⟨hne, e, he, rfl⟩, rfl⟩

theorem Unsigned.head {q : ℚ} (h : Unsigned t q) :
    ∃ c r, t = c :: r ∧ (c.isDigit = true ∨ c = '.') := by
  cases h with
  | @whole ds exp e hne hds he =>
    obtain ⟨c, r, rfl⟩ := List.exists_cons_of_ne_nil hne
    exact ⟨c, _, rfl, .inl (hds c List.mem_cons_self)⟩
  | @pointed ds part exp e hne hds hpart he =>
    cases ds with
    | nil => exact ⟨'.', _, rfl, .inr rfl⟩
    | cons c r => exact ⟨c, _, rfl, .inl (hds c List.mem_cons_self)⟩

/-! ## Numerals -/

theorem ofText?_eq (t : Text) :
    Numeral.ofText? t = (magnitude? (splitSign t).2).map (⟨(splitSign t).1, ·⟩) := by
  unfold Numeral.ofText?
  split
  next => rfl
  next => rfl
  next hminus hplus => rw [splitSign_of_unsigned hminus hplus]

theorem ofText?_of_magnitude? {d : Decimal} (h : magnitude? t = some (.finite d)) :
    Decimal.ofText? t = some d := by
  unfold magnitude? at h
  dsimp only at h
  split at h
  next => cases h
  next =>
    split at h
    next => cases h
    next =>
      obtain ⟨_, hd, heq⟩ := Option.map_eq_some_iff.1 h
      cases heq
      exact hd

/-- No numeral begins like one of the words. -/
theorem Unsigned.magnitude?_eq {q : ℚ} (h : Unsigned t q) :
    magnitude? t = (Decimal.ofText? t).map .finite := by
  obtain ⟨c, r, rfl, hc⟩ := h.head
  have hlower : c.toLower = c := by
    rcases hc with hdigit | rfl
    · exact toLower_of_isDigit hdigit
    · decide
  have hword (w : Text) (hw : w.head? = some 'i' ∨ w.head? = some 'n') :
      (c :: r).map Char.toLower ≠ w := by
    rintro rfl
    rw [List.map_cons, hlower] at hw
    rcases hc with hdigit | rfl
    · rcases hw with hw | hw <;> cases hw <;> exact absurd hdigit (by decide)
    · simp at hw
  unfold magnitude?
  rw [if_neg (not_or.2 ⟨hword _ (by decide), hword _ (by decide)⟩), if_neg (hword _ (by decide))]

/-- The reader finds a finite number exactly in the numerals that stand for it. -/
theorem denotes_iff {q : ℚ} :
    Denotes t q ↔ ∃ negative d, Numeral.ofText? t = some ⟨negative, .finite d⟩ ∧
      signed negative d.value = q := by
  constructor
  · rintro @⟨sign, t, negative, q, hsign, h⟩
    obtain ⟨d, hd, rfl⟩ := h.exists_ofText?
    have hhead : ∀ c ∈ t.head?, c ≠ '-' ∧ c ≠ '+' := by
      obtain ⟨c, r, rfl, hc⟩ := h.head
      rintro c ⟨⟩
      rcases hc with hdigit | rfl
      · exact not_sign_of_isDigit hdigit
      · decide
    refine ⟨_, d, ?_, rfl⟩
    rw [ofText?_eq, splitSign_append hsign hhead, h.magnitude?_eq, hd]
    rfl
  · rintro ⟨negative, d, h, rfl⟩
    obtain ⟨sign, ht, hsign⟩ := exists_sign t
    rw [ofText?_eq] at h
    obtain ⟨m, hm, heq⟩ := Option.map_eq_some_iff.1 h
    cases heq
    have hdenotes := Denotes.intro hsign (unsigned_of_ofText? (ofText?_of_magnitude? hm))
    rwa [← ht] at hdenotes

theorem denotes_iff_of_finite {negative : Bool} {d : Decimal} {q : ℚ}
    (h : Numeral.ofText? t = some ⟨negative, .finite d⟩) :
    Denotes t q ↔ signed negative d.value = q := by
  rw [denotes_iff, h]
  constructor
  · rintro ⟨_, _, heq, hq⟩
    cases heq
    exact hq
  · exact fun hq => ⟨negative, d, rfl, hq⟩

theorem not_denotes_of_ne_finite {negative : Bool} {m : Magnitude}
    (h : Numeral.ofText? t = some ⟨negative, m⟩) (hm : ∀ d, m ≠ .finite d) : ¬∃ q, Denotes t q := by
  rintro ⟨q, hq⟩
  obtain ⟨_, d, hd, -⟩ := denotes_iff.1 hq
  rw [h] at hd
  cases hd
  exact hm d rfl

end Numeral
end HeadJob
