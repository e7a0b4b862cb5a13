import HeadJob.Proofs.Config.Assignment

/-!
What one line does to the reader of a body, and what holds after every line.

All that a line can do is listed once.  What is read is always tidy, and the lines of a block that
says something plainly are taken in one by one.
-/

namespace HeadJob

open Delimiter (brackets braces)

/-- A line that a sub-block can hold. -/
structure Text.IsCarried (t : Text) : Prop where
  ne_nil : t ≠ []
  trim : t.trim = t
  noBreak : '\n' ∉ t
  bare : t.stripComment = t

theorem Text.IsValue.extend {v t : Text} (hv : v.IsValue) (ht : t.IsCarried) :
    (v ++ ' ' :: t).IsValue where
  ne_nil := by simp
  trim := by
    have h := Text.trim_append_append hv.trim hv.ne_nil ht.trim ht.ne_nil [' ']
    simpa using h
  noBreak := by
    simp only [List.mem_append, List.mem_cons, not_or]
    exact ⟨hv.noBreak, by decide, ht.noBreak⟩

/-- Whether a value that opens more of these delimiters than it closes is kept open for that.  Braces
are looked at only where brackets are balanced. -/
structure Delimiter.KeepsOpen (d : Delimiter) (value : Text) : Prop where
  opens : 0 < d.netChange value
  turn : d = brackets ∨ d = braces ∧ brackets.netChange value = 0

namespace Reading

theorem ofDepth_of_pos {n : Int} (h : 0 < n) : ofDepth n = nested n.toNat := if_pos h

theorem ofDepth_of_nonpos {n : Int} (h : n ≤ 0) : ofDepth n = idle := if_neg (by omega)

theorem ofDepth_toNat (n : Int) : ofDepth n.toNat = ofDepth n := by
  by_cases h : 0 < n
  · rw [ofDepth_of_pos h, ofDepth_of_pos (by omega), Int.toNat_natCast]
  · rw [ofDepth_of_nonpos (by omega), ofDepth_of_nonpos (by omega)]

theorem ofDepth_eq_nested {n : Int} {m : Nat} (h : ofDepth n = nested m) : 0 < m ∧ n = m := by
  unfold ofDepth at h
  split at h
  · injection h with h
    omega
  · cases h

theorem ofDepth_ne_value (n : Int) (v : OpenValue) : ofDepth n ≠ value v := by
  unfold ofDepth
  split <;> simp

end Reading

namespace BodyReader

variable {line : Nat} {r r' : BodyReader} {t : Text}

@[simp] theorem settings_assign (r : BodyReader) (line : Nat) (key value : Text) :
    (r.assign line key value).settings = r.settings.insert key value := by
  unfold assign
  dsimp only
  split <;> rfl

@[simp] theorem nested_assign (r : BodyReader) (line : Nat) (key value : Text) :
    (r.assign line key value).nested = r.nested := by
  unfold assign
  dsimp only
  split <;> rfl

@[simp] theorem reading_assign (r : BodyReader) (line : Nat) (key value : Text) :
    (r.assign line key value).reading = .idle := by
  unfold assign
  dsimp only
  split <;> rfl

/-- A key that is set for the first time is set without a warning. -/
theorem assign_of_notMem {key : Text} (h : key ∉ r.settings.keys) (line : Nat) (value : Text) :
    r.assign line key value =
      { r with settings := r.settings.insert key value, reading := .idle } := by
  rw [assign, OrderedMap.get?_eq_none_iff.2 h]

theorem settings_finish (r : BodyReader) : r.finish.settings = r.settings := by
  unfold finish
  split <;> rfl

/-! ## One line -/

/-- What a line can do to a reader. -/
inductive Step (line : Nat) (t : Text) (r : BodyReader) : BodyReader → Prop
  | blank (ht : t = []) : Step line t r r
  | carry (depth : Nat) (ht : t ≠ []) (hr : r.reading = .nested depth) :
      Step line t r
        { r with
          nested := r.nested ++ [t]
          reading := .ofDepth (depth + braces.netChange t) }
  | openBlock (ht : t ≠ []) (hr : r.reading = .idle) (hopens : t.opensSubBlock = true) :
      Step line t r
        { r.warn (.nestedBlock line t) with
          nested := r.nested ++ [t]
          reading := .ofDepth (braces.netChange t) }
  /-- A line that says nothing.  Its braces count all the same. -/
  | skip (ht : t ≠ []) (hr : r.reading = .idle) (hassign : t.assignment? = none)
      (hopens : t.opensSubBlock = false) :
      Step line t r
        { r.warn (.notAssignment line t) with reading := .ofDepth (braces.netChange t) }
  | excess (key : Text) (d : Delimiter) (ht : t ≠ []) (hr : r.reading = .idle) (value : Text)
      (hassign : t.assignment? = some (key, value)) (hopens : t.opensSubBlock = false)
      (hd : d.netChange value < 0) :
      Step line t r (r.warn (.unbalanced line d.closing key))
  | openValue (key value : Text) (d : Delimiter) (ht : t ≠ []) (hr : r.reading = .idle)
      (hassign : t.assignment? = some (key, value)) (hopens : t.opensSubBlock = false)
      (hd : d.KeepsOpen value) :
      Step line t r
        { r with reading := .value ⟨key, line, value, d, (d.netChange value).toNat⟩ }
  | assign (key value : Text) (ht : t ≠ []) (hr : r.reading = .idle)
      (hopens : t.opensSubBlock = false) (hassign : t.assignment? = some (key, value))
      (hbrackets : brackets.netChange value = 0) (hbraces : braces.netChange value = 0) :
      Step line t r (r.assign line key value)
  | extend (v : OpenValue) (depth : Nat) (ht : t ≠ []) (hr : r.reading = .value v)
      (hstill : v.delimiter.closingOf v.depth t = .still depth) :
      Step line t r { r with reading := .value { v with text := v.text ++ ' ' :: t, depth } }
  | close (v : OpenValue) (ht : t ≠ []) (hr : r.reading = .value v) (pos : Nat)
      (hclosed : v.delimiter.closingOf v.depth t = .closed pos) :
      Step line t r (r.assign v.line v.key (Text.trim (v.text ++ ' ' :: t)))

theorem feed_of_idle (hr : r.reading = .idle) (ht : t ≠ []) (line : Nat) :
    r.feed line t = r.start line t := by
  unfold feed
  rw [if_neg ht, hr]

theorem feed_of_value {v : OpenValue} (hr : r.reading = .value v) (ht : t ≠ []) (line : Nat) :
    r.feed line t = r.continueValue v t := by
  unfold feed
  rw [if_neg ht, hr]

/-- A value that leaves nothing open, and closes nothing that is not open, is complete on its line. -/
theorem start_of_netChange {key value : Text} (hopens : t.opensSubBlock = false)
    (hassign : t.assignment? = some (key, value)) (hbrackets : brackets.netChange value = 0)
    (hbraces : braces.netChange value = 0) : r.start line t = r.assign line key value := by
  rw [start, if_neg (by simp [hopens]), hassign]
  simp only [startValue, hbrackets, hbraces, Int.lt_irrefl, if_false]

theorem start_of_keepsOpen {key value : Text} {d : Delimiter} (hopens : t.opensSubBlock = false)
    (hassign : t.assignment? = some (key, value)) (hd : d.KeepsOpen value) :
    r.start line t =
      { r with reading := .value ⟨key, line, value, d, (d.netChange value).toNat⟩ } := by
  have hpos := hd.opens
  rw [start, if_neg (by simp [hopens]), hassign]
  rcases hd.turn with rfl | ⟨rfl, hbrackets⟩
  · simp only [startValue, if_pos hpos]
  · simp only [startValue, hbrackets, Int.lt_irrefl, if_false, if_pos hpos]

theorem step_start (ht : t ≠ []) (hr : r.reading = .idle) : Step line t r (r.start line t) := by
  unfold start
  split
  · next hopens => exact .openBlock ht hr hopens
  · next hopens =>
    rw [Bool.not_eq_true] at hopens
    split
    · next hassign => exact .skip ht hr hassign hopens
    · next key value hassign =>
      rw [startValue, startValue, startValue]
      split
      · next hopen => exact .openValue key value brackets ht hr hassign hopens ⟨hopen, .inl rfl⟩
      · split
        · next hexcess => exact .excess key brackets ht hr value hassign hopens hexcess
        · split
          · next hopen =>
            exact .openValue key value braces ht hr hassign hopens ⟨hopen, .inr ⟨rfl, by omega⟩⟩
          · split
            · next hexcess => exact .excess key braces ht hr value hassign hopens hexcess
            · exact .assign key value ht hr hopens hassign (by omega) (by omega)

theorem step_feed (line : Nat) (t : Text) (r : BodyReader) : Step line t r (r.feed line t) := by
  unfold feed
  split
  · next ht => exact .blank ht
  · next ht =>
    split
    · next hr => exact step_start ht hr
    · next depth hr => exact .carry depth ht hr
    · next v hr =>
      unfold continueValue
      dsimp only
      split
      · next pos hclosed => exact .close v ht hr pos hclosed
      · next depth hstill => exact .extend v depth ht hr hstill

/-! ## All lines -/

theorem feedAll_append (r : BodyReader) (line : Nat) (a b : List Text) :
    r.feedAll line (a ++ b) = (r.feedAll line a).feedAll (line + a.length) b := by
  induction a generalizing r line with
  | nil => rfl
  | cons t a ih =>
    rw [List.cons_append, feedAll, feedAll, ih, List.length_cons, Nat.add_assoc, Nat.add_comm 1]

/-- Blanks around lines make no difference. -/
theorem feedAll_congr {a b : List Text} (h : a.map Text.trim = b.map Text.trim)
    (r : BodyReader) (line : Nat) : r.feedAll line a = r.feedAll line b := by
  induction a generalizing r line b with
  | nil =>
    cases b with
    | nil => rfl
    | cons u b => cases h
  | cons t a ih =>
    cases b with
    | nil => cases h
    | cons u b =>
      injection h with htu h
      rw [feedAll, feedAll, htu, ih h]

/-! ## What is read is tidy -/

/-- Keys, values and lines of sub-blocks are trimmed and not empty, also where they are still being
read. -/
structure Tidy (r : BodyReader) : Prop where
  settings : ∀ e ∈ r.settings.entries, e.1.IsKey ∧ e.2.IsValue
  nested : ∀ t ∈ r.nested, t.IsCarried
  value : ∀ v, r.reading = .value v → v.key.IsKey ∧ v.text.IsValue
  depth : ∀ n, r.reading = .nested n → 0 < n

theorem Tidy.empty : Tidy {} where
  settings := fun _ h => absurd h List.not_mem_nil
  nested := fun _ h => absurd h List.not_mem_nil
  value := fun _ h => nomatch h
  depth := fun _ h => nomatch h

theorem Tidy.assign (h : Tidy r) {key value : Text} (hk : key.IsKey) (hv : value.IsValue)
    (line : Nat) : Tidy (r.assign line key value) where
  settings := by
    intro e he
    rw [settings_assign] at he
    rcases OrderedMap.mem_insert he with rfl | he
    · exact ⟨hk, hv⟩
    · exact h.settings e he
  nested := by
    rw [nested_assign]
    exact h.nested
  value := by
    rw [reading_assign]
    exact fun _ hv => nomatch hv
  depth := by
    rw [reading_assign]
    exact fun _ hn => nomatch hn

theorem isKey_isValue_of_assignment? {key value : Text} (ht : t.trim = t) (hline : '\n' ∉ t)
    (h : t.assignment? = some (key, value)) : key.IsKey ∧ value.IsValue := by
  obtain ⟨hk, hv, hk', hv', hequals, b, c, -, -, rfl⟩ := Text.exists_blanks_of_assignment? ht h
  simp only [List.mem_append, not_or] at hline
  exact ⟨⟨hk, hk', hline.1.1.1, hequals⟩, hv, hv', hline.2⟩

theorem Tidy.step (h : Tidy r) (ht : t ≠ [] → t.IsCarried) (hstep : Step line t r r') :
    Tidy r' := by
  cases hstep with
  | blank => exact h
  | carry depth hne =>
    refine ⟨h.settings, ?_, fun v hv => absurd hv (Reading.ofDepth_ne_value _ v),
      fun n hn => (Reading.ofDepth_eq_nested hn).1⟩
    exact List.forall_mem_append.2 ⟨h.nested, List.forall_mem_singleton.2 (ht hne)⟩
  | openBlock hne =>
    refine ⟨h.settings, ?_, fun v hv => absurd hv (Reading.ofDepth_ne_value _ v),
      fun n hn => (Reading.ofDepth_eq_nested hn).1⟩
    exact List.forall_mem_append.2 ⟨h.nested, List.forall_mem_singleton.2 (ht hne)⟩
  | skip =>
    exact ⟨h.settings, h.nested, fun v hv => absurd hv (Reading.ofDepth_ne_value _ v),
      fun n hn => (Reading.ofDepth_eq_nested hn).1⟩
  | excess => exact ⟨h.settings, h.nested, h.value, h.depth⟩
  | openValue key value d hne _ hassign =>
    have hkv := isKey_isValue_of_assignment? (ht hne).trim (ht hne).noBreak hassign
    refine ⟨h.settings, h.nested, fun v hv => ?_, fun _ hn => nomatch hn⟩
    cases hv
    exact hkv
  | assign key value hne _ _ hassign =>
    have hkv := isKey_isValue_of_assignment? (ht hne).trim (ht hne).noBreak hassign
    exact h.assign hkv.1 hkv.2 line
  | extend v depth hne hr =>
    obtain ⟨hk, hv⟩ := h.value v hr
    refine ⟨h.settings, h.nested, fun w hw => ?_, fun _ hn => nomatch hn⟩
    cases hw
    exact ⟨hk, hv.extend (ht hne)⟩
  | close v hne hr =>
    obtain ⟨hk, hv⟩ := h.value v hr
    have hv' := hv.extend (ht hne)
    rw [hv'.trim]
    exact h.assign hk hv' v.line

theorem Tidy.feed (h : Tidy r) (ht : '\n' ∉ t ∧ t.stripComment = t) (line : Nat) :
    Tidy (r.feed line t.trim) := by
  refine h.step (fun hne => ?_) (step_feed line t.trim r)
  exact ⟨hne, Text.trim_trim t, fun hmem => ht.1 ((Text.trim_sublist t).subset hmem),
    Text.stripComment_trim ht.2⟩

theorem Tidy.feedAll {ts : List Text} (hts : ∀ t ∈ ts, '\n' ∉ t ∧ t.stripComment = t)
    (h : Tidy r) (line : Nat) : Tidy (r.feedAll line ts) := by
  induction ts generalizing r line with
  | nil => exact h
  | cons t ts ih =>
    exact ih (fun u hu => hts u (List.mem_cons_of_mem t hu)) (h.feed (hts t List.mem_cons_self) line)
      (line + 1)

end BodyReader
end HeadJob
