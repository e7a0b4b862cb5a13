import HeadJob.Proofs.Config.Written

/-!
How much a line can add to what a reader holds.

A line adds one entry or one line of a sub-block at most.  A body that is read back as it was written
has as many lines as it says things, so each of its lines must have added something, and only a line
that is read on its own does that.
-/

namespace HeadJob

open Delimiter (brackets braces)

namespace Text

def ink (t : Text) : Nat := t.countP fun c => !isBlank c

theorem ink_append (s t : Text) : ink (s ++ t) = ink s + ink t := List.countP_append

theorem ink_of_isAllBlank {t : Text} (h : isAllBlank t = true) : ink t = 0 := by
  rw [ink, List.countP_eq_zero]
  intro c hc
  simpa using List.all_eq_true.1 h c hc

theorem ink_trim (t : Text) : ink (trim t) = ink t := by
  obtain ⟨a, b, ha, hb, ht⟩ := exists_blanks_trim_blanks t
  conv_rhs => rw [ht]
  rw [ink_append, ink_append, ink_of_isAllBlank ha, ink_of_isAllBlank hb]
  omega

theorem ink_seen (t : Text) : ink (seen t) = ink t ∨ ink (seen t) + 2 ≤ ink t := by
  rw [seen, ink_trim]
  rcases Scan.beforeComment_cases Scan.start t with h | ⟨r, h, -⟩
  · exact .inl (congrArg ink h)
  · right
    conv_rhs => rw [h]
    rw [ink_append]
    show ink t.stripComment + 2 ≤ ink t.stripComment + ink (['/', '/'] ++ r)
    rw [ink_append, show ink ['/', '/'] = 2 from rfl]
    omega

/-- Comments cannot make out a single character. -/
theorem ink_flatten_map_seen (ls : List Text) :
    ink (ls.map seen).flatten = ink ls.flatten ∨ ink (ls.map seen).flatten + 2 ≤ ink ls.flatten := by
  induction ls with
  | nil => exact .inl rfl
  | cons l ls ih =>
    rw [List.map_cons, List.flatten_cons, List.flatten_cons, ink_append, ink_append]
    rcases ink_seen l with h | h <;> rcases ih with ih | ih <;> omega

theorem ink_of_assignment? {t key value : Text} (ht : t.trim = t)
    (h : t.assignment? = some (key, value)) : ink (assignmentLine key value) = ink t := by
  obtain ⟨-, -, -, -, -, b, c, hb, hc, rfl⟩ := exists_blanks_of_assignment? ht h
  have hequals : ink ('=' :: c) = 1 := by
    show ink (['='] ++ c) = 1
    rw [ink_append, ink_of_isAllBlank hc]
    rfl
  rw [assignmentLine, ink_append, ink_append, ink_append, ink_append, ink_append, hequals,
    ink_of_isAllBlank hb]
  rfl

end Text

def Reading.pending : Reading → List (Text × Text)
  | value v => [(v.key, v.text)]
  | _ => []

@[simp] theorem Reading.pending_idle : idle.pending = [] := rfl

@[simp] theorem Reading.pending_nested (n : Nat) : (nested n).pending = [] := rfl

@[simp] theorem Reading.pending_value (v : OpenValue) : (value v).pending = [(v.key, v.text)] := rfl

@[simp] theorem Reading.pending_ofDepth (n : Int) : (ofDepth n).pending = [] := by
  unfold ofDepth
  split <;> rfl

theorem Reading.ofDepth_natCast_inj {m n : Nat} (h : ofDepth m = ofDepth n) : m = n := by
  unfold ofDepth at h
  split at h <;> split at h
  · injection h
  · cases h
  · cases h
  · omega

namespace BodyReader

variable {line : Nat} {r r' : BodyReader} {t : Text}

/-- How many entries and lines of sub-blocks have been read, with one that is being read. -/
def items (r : BodyReader) : Nat :=
  r.settings.size + r.nested.length + r.reading.pending.length

def held (r : BodyReader) : Text :=
  ((r.settings.entries ++ r.reading.pending).map fun e => Text.assignmentLine e.1 e.2).flatten ++
    r.nested.flatten

@[simp] theorem items_empty : items {} = 0 := rfl

theorem items_assign (r : BodyReader) (line : Nat) (key value : Text) :
    (r.assign line key value).items =
      (if key ∈ r.settings.keys then r.settings.size else r.settings.size + 1) +
        r.nested.length := by
  simp [items, OrderedMap.size_insert]

/-! ## A line that adds something -/

/-- A line adds to what is read: it is a line of a sub-block, or the first of a value, or it sets a new
key. -/
inductive Gain (t : Text) (r : BodyReader) (r' : BodyReader) : Prop
  | nested (depth : Nat) (hr : r.reading = .ofDepth depth)
      (hopens : depth = 0 → t.opensSubBlock = true) (hsettings : r'.settings = r.settings)
      (hnested : r'.nested = r.nested ++ [t])
      (hreading : r'.reading = .ofDepth (depth + braces.netChange t))
  | value (v : OpenValue) (hr : r.reading = .idle) (hassign : t.assignment? = some (v.key, v.text))
      (hsettings : r'.settings = r.settings) (hnested : r'.nested = r.nested)
      (hreading : r'.reading = .value v)
  | entry (key value : Text) (hr : r.reading = .idle) (hnew : key ∉ r.settings.keys)
      (hopens : t.opensSubBlock = false) (hassign : t.assignment? = some (key, value))
      (hbrackets : brackets.netChange value = 0) (hbraces : braces.netChange value = 0)
      (hsettings : r'.settings = r.settings.insert key value) (hnested : r'.nested = r.nested)
      (hreading : r'.reading = .idle)

/-- A line that adds nothing more than it takes away leaves the count, and any other adds one. -/
theorem Step.items_le_or_gain (h : Step line t r r') (hr : Tidy r) :
    r'.items ≤ r.items ∨ r'.items = r.items + 1 ∧ Gain t r r' := by
  cases h with
  | blank => exact .inl le_rfl
  | carry depth _ hreading =>
    refine .inr ⟨by simp [items, hreading, Nat.add_assoc], ?_⟩
    have hpos := hr.depth depth hreading
    refine .nested depth ?_ (fun h => absurd h (by omega)) rfl rfl rfl
    rw [hreading, Reading.ofDepth_of_pos (by omega), Int.toNat_natCast]
  | openBlock _ hreading hopens =>
    refine .inr ⟨by simp [items, hreading, warn, Nat.add_assoc], ?_⟩
    exact .nested 0 hreading (fun _ => hopens) rfl rfl (by simp)
  | skip _ hreading => exact .inl (by simp [items, hreading, warn])
  | excess => exact .inl le_rfl
  | openValue key value d _ hreading hassign =>
    refine .inr ⟨by simp [items, hreading], ?_⟩
    exact .value _ hreading hassign rfl rfl rfl
  | assign key value _ hreading hopens hassign hbrackets hbraces =>
    by_cases hnew : key ∈ r.settings.keys
    · left
      rw [items_assign, if_pos hnew]
      simp [items]
    · right
      refine ⟨?_, .entry key value hreading hnew hopens hassign hbrackets hbraces (by simp) (by simp)
        (by simp)⟩
      rw [items_assign, if_neg hnew]
      simp [items, hreading, Nat.add_right_comm]
  | extend v depth _ hreading => exact .inl (by simp [items, hreading])
  | close v _ hreading =>
    left
    rw [items_assign]
    simp only [items, hreading, Reading.pending_value, List.length_singleton]
    split <;> omega

theorem Gain.ink_held (h : Gain t r r') (ht : t.trim = t) :
    r'.held.ink = r.held.ink + t.ink := by
  cases h with
  | nested depth hr _ hsettings hnested hreading =>
    simp only [held, hr, hsettings, hnested, hreading, Reading.pending_ofDepth, List.append_nil,
      List.flatten_append, List.flatten_singleton, Text.ink_append, Nat.add_assoc]
  | value v hr hassign hsettings hnested hreading =>
    have hline := Text.ink_of_assignment? ht hassign
    simp only [held, hr, hsettings, hnested, hreading, Reading.pending_idle, Reading.pending_value, List.append_nil,
      List.map_append, List.flatten_append, List.map_cons, List.map_nil, List.flatten_singleton,
      Text.ink_append, hline]
    omega
  | entry key value hr hnew _ hassign _ _ hsettings hnested hreading =>
    have hline := Text.ink_of_assignment? ht hassign
    simp only [held, hr, hsettings, hnested, hreading, Reading.pending_idle, List.append_nil,
      OrderedMap.entries_insert_of_notMem hnew, List.map_append, List.flatten_append,
      List.map_cons, List.map_nil, List.flatten_singleton, Text.ink_append, hline]
    omega

/-! ## Lines that all add something -/

inductive Gains : BodyReader → List Text → BodyReader → Prop
  | nil (r : BodyReader) : Gains r [] r
  | cons {r r' r'' : BodyReader} {t : Text} {ts : List Text} (hgain : Gain t r r')
      (hgains : Gains r' ts r'') : Gains r (t :: ts) r''

theorem items_feedAll_le {ts : List Text} (hts : ∀ t ∈ ts, '\n' ∉ t ∧ t.stripComment = t)
    (hr : Tidy r) (line : Nat) : (r.feedAll line ts).items ≤ r.items + ts.length := by
  induction ts generalizing r line with
  | nil => exact le_rfl
  | cons t ts ih =>
    have hstep := (step_feed line t.trim r).items_le_or_gain hr
    have hrest := fun u hu => hts u (List.mem_cons_of_mem t hu)
    have htidy := hr.feed (hts t List.mem_cons_self) line
    have := ih hrest htidy (line + 1)
    rw [feedAll, List.length_cons]
    rcases hstep with h | ⟨h, -⟩ <;> omega

/-- Where a reader holds as many things more as there were lines, each line has added one. -/
theorem gains_of_items {ts : List Text} (hts : ∀ t ∈ ts, '\n' ∉ t ∧ t.stripComment = t)
    (hr : Tidy r) (h : (r.feedAll line ts).items = r.items + ts.length) :
    Gains r (ts.map Text.trim) (r.feedAll line ts) := by
  induction ts generalizing r line with
  | nil => exact .nil r
  | cons t ts ih =>
    have hstep := (step_feed line t.trim r).items_le_or_gain hr
    have hrest := fun u hu => hts u (List.mem_cons_of_mem t hu)
    have htidy := hr.feed (hts t List.mem_cons_self) line
    have hle := items_feedAll_le hrest htidy (line + 1)
    rw [feedAll, List.length_cons] at h
    rcases hstep with hno | ⟨hitems, hgain⟩
    · omega
    · exact .cons hgain (ih hrest htidy (by omega))

theorem Gains.ink_held {ts : List Text} (h : Gains r ts r') (hts : ∀ t ∈ ts, t.trim = t) :
    r'.held.ink = r.held.ink + Text.ink ts.flatten := by
  induction h with
  | nil => rfl
  | cons hgain _ ih =>
    rw [ih fun u hu => hts u (List.mem_cons_of_mem _ hu), hgain.ink_held (hts _ List.mem_cons_self),
      List.flatten_cons, Text.ink_append, Nat.add_assoc]

theorem Gains.readsBack {ts : List Text} (h : Gains r ts r')
    (hts : ∀ t ∈ ts, t.trim = t ∧ t.stripComment = t)
    (hr : ∀ e ∈ r.settings.entries, Text.ReadsBack e.1 e.2) :
    ∀ e ∈ r'.settings.entries, Text.ReadsBack e.1 e.2 := by
  induction h with
  | nil => exact hr
  | cons hgain _ ih =>
    obtain ⟨htrim, hbare⟩ := hts _ List.mem_cons_self
    refine ih (fun u hu => hts u (List.mem_cons_of_mem _ hu)) ?_
    cases hgain with
    | nested _ _ _ hsettings => rwa [hsettings]
    | value _ _ _ hsettings => rwa [hsettings]
    | entry key value _ hnew hopens hassign hbrackets hbraces hsettings =>
      rw [hsettings, OrderedMap.entries_insert_of_notMem hnew]
      refine List.forall_mem_append.2 ⟨hr, List.forall_mem_singleton.2 ?_⟩
      exact Text.readsBack_of_assignment? htrim hbare hopens hassign hbrackets hbraces

theorem Gains.size_le {ts : List Text} (h : Gains r ts r') :
    r.settings.size ≤ r'.settings.size := by
  induction h with
  | nil => exact le_rfl
  | cons hgain _ ih =>
    refine le_trans ?_ ih
    cases hgain with
    | nested _ _ _ hsettings => rw [hsettings]
    | value _ _ _ hsettings => rw [hsettings]
    | entry _ _ _ hnew _ _ _ _ hsettings =>
      rw [hsettings, OrderedMap.size_insert, if_neg hnew]
      exact Nat.le_succ _

theorem Gains.carriedFrom {ts : List Text} (h : Gains r ts r') {depth : Nat}
    (hr : r.reading = .ofDepth depth) (hr' : r'.reading = .idle)
    (hsize : r'.settings.size ≤ r.settings.size) : CarriedFrom depth ts := by
  induction h generalizing depth with
  | nil r => exact Reading.ofDepth_natCast_inj (n := 0) (hr.symm.trans hr')
  | cons hgain hgains ih =>
    have hsize' := hgains.size_le
    cases hgain with
    | nested d hd hopens hsettings hnested hreading =>
      have heq : d = depth := Reading.ofDepth_natCast_inj (hd.symm.trans hr)
      subst heq
      refine ⟨hopens, ih ?_ hr' (by rw [hsettings]; exact hsize)⟩
      rw [hreading, Reading.ofDepth_toNat]
    | value v _ _ _ _ hreading =>
      -- nothing more can be added while a value is read
      exfalso
      cases hgains with
      | nil => rw [hreading] at hr'; cases hr'
      | cons hgain =>
        cases hgain with
        | nested d hd => exact Reading.ofDepth_ne_value _ v (hd.symm.trans hreading)
        | value _ hidle => rw [hreading] at hidle; cases hidle
        | entry _ _ hidle => rw [hreading] at hidle; cases hidle
    | entry _ _ _ hnew _ _ _ _ hsettings =>
      rw [hsettings, OrderedMap.size_insert, if_neg hnew] at hsize'
      omega

/-! ## Closing braces at the end -/

theorem feed_brace_of_idle (hr : r.reading = .idle) (line : Nat) :
    r.feed line ['}'] = r.warn (.notAssignment line ['}']) := by
  have hfeed : r.feed line ['}'] = r.start line ['}'] := by
    simp only [feed, hr]
    rfl
  rw [hfeed, show r.start line ['}'] =
    { r.warn (.notAssignment line ['}']) with reading := .idle } from rfl, ← hr]
  rfl

theorem feed_brace_of_nested {depth : Nat} (hr : r.reading = .nested depth) (line : Nat) :
    r.feed line ['}'] =
      { r with nested := r.nested ++ [['}']], reading := .ofDepth (depth + -1) } := by
  simp only [feed, hr]
  rfl

/-- A closing brace that is read in a sub-block is one of those that the end of the body would
add. -/
theorem nested_finish_feed_brace {depth : Nat} (hr : r.reading = .nested depth) (hd : 0 < depth)
    (line : Nat) :
    (r.feed line ['}']).finish.nested = r.nested ++ List.replicate depth ['}'] := by
  obtain ⟨n, rfl⟩ : ∃ n, depth = n + 1 := ⟨depth - 1, by omega⟩
  rw [feed_brace_of_nested hr, finish, List.replicate_succ]
  cases n with
  | zero => rfl
  | succ n =>
    rw [Reading.ofDepth_of_pos (by omega),
      show (((n + 1 + 1 : Nat) : Int) + -1).toNat = n + 1 by omega]
    simp

/-- A closing brace on a line leads out of a sub-block, and never into one. -/
theorem reading_feed_brace {j : Nat} (h : (r.feed line ['}']).reading = .nested j) :
    r.reading = .nested (j + 1) ∧ (r.feed line ['}']).nested = r.nested ++ [['}']] := by
  cases hr : r.reading with
  | idle =>
    rw [feed_brace_of_idle hr, show (r.warn (.notAssignment line ['}'])).reading = r.reading from rfl,
      hr] at h
    cases h
  | nested d =>
    rw [feed_brace_of_nested hr] at h ⊢
    obtain ⟨-, hd⟩ := Reading.ofDepth_eq_nested h
    exact ⟨congrArg _ (by omega), rfl⟩
  | value v =>
    exfalso
    rw [feed_of_value hr (by decide), continueValue] at h
    split at h
    · rw [reading_assign] at h
      cases h
    · cases h

theorem reading_feedAll_braces {j n : Nat}
    (h : (r.feedAll line (List.replicate n ['}'])).reading = .nested j) :
    r.reading = .nested (j + n) ∧
      (r.feedAll line (List.replicate n ['}'])).nested = r.nested ++ List.replicate n ['}'] := by
  induction n generalizing r line with
  | zero => exact ⟨h, by simp [feedAll]⟩
  | succ n ih =>
    rw [List.replicate_succ, feedAll] at h ⊢
    obtain ⟨hreading, hnested⟩ := ih h
    obtain ⟨hr, hfeed⟩ := reading_feed_brace hreading
    rw [hnested]
    refine ⟨by rw [hr, Nat.add_assoc], ?_⟩
    rw [show Text.trim ['}'] = ['}'] from rfl, hfeed, List.append_assoc]
    rfl

/-- Lines that end inside a sub-block are not what is read of them: their closing braces come out
again, and one more. -/
theorem append_replicate_ne (r : BodyReader) {line j : Nat} {a : List Text} (hj : 0 < j)
    (b : List Text) (h : (r.feedAll line (b ++ a)).reading = .nested j) :
    (r.feedAll line (b ++ a)).nested ++ List.replicate j ['}'] ≠ a := by
  intro ha
  -- all closing braces at the end of the lines are set apart
  have hsplit := List.rdropWhile_append_rtakeWhile (p := (· == ['}'])) (l := a)
  have hbraces : a.rtakeWhile (· == ['}']) =
      List.replicate (a.rtakeWhile (· == ['}'])).length ['}'] := by
    refine List.eq_replicate_of_mem fun t ht => ?_
    simpa using List.mem_rtakeWhile_imp ht
  generalize (a.rtakeWhile (· == ['}'])).length = n at hbraces
  generalize hfront : a.rdropWhile (· == ['}']) = front at hsplit
  rw [hbraces] at hsplit
  rw [← hsplit, ← List.append_assoc, feedAll_append] at h ha
  obtain ⟨-, hnested⟩ := reading_feedAll_braces h
  rw [hnested, List.append_assoc, List.replicate_append_replicate, Nat.add_comm,
    ← List.replicate_append_replicate, ← List.append_assoc, List.append_left_inj] at ha
  have hlast : front.getLast? = some ['}'] := by
    rw [← ha, List.getLast?_append, List.getLast?_replicate, if_neg (by omega)]
    rfl
  have hne : front ≠ [] := by
    rintro rfl
    cases hlast
  have hstop := List.rdropWhile_last_not (· == ['}']) a (by rw [hfront]; exact hne)
  simp only [hfront] at hstop
  rw [List.getLast?_eq_some_getLast hne, Option.some_inj] at hlast
  rw [hlast] at hstop
  exact hstop rfl

/-! ## Reading back what was written -/

section

variable {es : List (Text × Text)} {nested tail : List Text}

/-- The lines of entries and sub-blocks, as a reader sees them. -/
def seenLines (es : List (Text × Text)) (nested : List Text) : List Text :=
  ((es.map fun e => Text.assignmentLine e.1 e.2) ++ nested).map Text.seen

theorem seenLines_tidy (hkv : ∀ e ∈ es, e.1.IsKey ∧ e.2.IsValue)
    (hnested : ∀ t ∈ nested, t.IsCarried) :
    ∀ t ∈ seenLines es nested, '\n' ∉ t ∧ t.stripComment = t := by
  intro t ht
  obtain ⟨u, hu, rfl⟩ := List.mem_map.1 ht
  have hline : '\n' ∉ u := by
    rcases List.mem_append.1 hu with hu | hu
    · obtain ⟨e, he, rfl⟩ := List.mem_map.1 hu
      exact (Text.isLine_assignmentLine (hkv e he).1 (hkv e he).2).1
    · exact (hnested u hu).noBreak
  have hseen := (Text.trim_sublist _).trans (Text.stripComment_sublist u)
  exact ⟨fun h => hline (hseen.subset h), Text.stripComment_trim (Text.stripComment_stripComment u)⟩

theorem length_seenLines (es : List (Text × Text)) (nested : List Text) :
    (seenLines es nested).length = es.length + nested.length := by
  simp [seenLines]

/-- A value that only the brace after the block completes is longer than all that was written. -/
theorem nested_ne_of_value (hkv : ∀ e ∈ es, e.1.IsKey ∧ e.2.IsValue)
    (hnested : ∀ t ∈ nested, t.IsCarried) {v : OpenValue}
    (hr : feedAll {} line (seenLines es nested) = r) (hv : r.reading = .value v) (n : Nat)
    (hes : (r.feed n ['}']).finish.settings.entries = es) : r.nested ≠ nested := by
  intro hn
  have htidy := seenLines_tidy hkv hnested
  have hle := items_feedAll_le htidy Tidy.empty line
  rw [hr, items, hv, hn, length_seenLines, items_empty, Reading.pending_value] at hle
  simp only [List.length_singleton] at hle
  rw [feed_of_value hv (by decide), continueValue] at hes
  split at hes
  · rw [finish, reading_assign, settings_assign] at hes
    have hsize := OrderedMap.size_insert r.settings v.key (Text.trim (v.text ++ ' ' :: ['}']))
    rw [OrderedMap.size, hes] at hsize
    by_cases hkey : v.key ∈ r.settings.keys
    · rw [if_pos hkey] at hsize
      omega
    · rw [if_neg hkey] at hsize
      -- then every line has added something, but for the one character that is the brace
      have hitems : (feedAll {} line (seenLines es nested)).items =
          items {} + (seenLines es nested).length := by
        rw [hr, items, hv, hn, length_seenLines, items_empty, hsize]
        simp only [Reading.pending_value, List.length_singleton]
        omega
      have hgains := gains_of_items htidy Tidy.empty hitems
      have htrim : (seenLines es nested).map Text.trim = seenLines es nested := by
        rw [seenLines, List.map_map]
        exact List.map_congr_left fun t _ => Text.trim_trim _
      rw [htrim, hr] at hgains
      have hink := hgains.ink_held fun t ht => by
        obtain ⟨u, -, rfl⟩ := List.mem_map.1 ht
        exact Text.trim_trim _
      have hlong : Text.ink ((es.map fun e => Text.assignmentLine e.1 e.2) ++ nested).flatten =
          r.held.ink + 1 := by
        rw [← hes, OrderedMap.entries_insert_of_notMem hkey]
        simp only [held, hv, hn, Reading.pending_value, List.map_append, List.flatten_append,
          List.map_cons, List.map_nil, List.flatten_singleton, Text.ink_append,
          Text.assignmentLine, Text.ink_trim]
        rw [show Text.ink [' ', '}'] = 1 from rfl]
        omega
      have hall := Text.ink_flatten_map_seen
        ((es.map fun e => Text.assignmentLine e.1 e.2) ++ nested)
      rw [← seenLines] at hall
      rw [show held {} = [] from rfl, show Text.ink [] = 0 from rfl, Nat.zero_add] at hink
      omega
  · have hsize : r.settings.size = es.length := congrArg List.length hes
    omega

/-- What is read back as it was written is read completely before the block ends.  The brace that ends
the block may be read with the body, where the body leaves a brace open. -/
theorem reading_eq_idle_of_finish (hkv : ∀ e ∈ es, e.1.IsKey ∧ e.2.IsValue)
    (hnested : ∀ t ∈ nested, t.IsCarried) (hr : feedAll {} line (seenLines es nested) = r)
    {n : Nat} (hr' : r' = r ∨ r' = r.feed n ['}'])
    (hsettings : r'.finish.settings.entries = es) (hlines : r'.finish.nested = nested) :
    r.reading = .idle ∧ r.settings.entries = es ∧ r.nested = nested := by
  have htidy := seenLines_tidy hkv hnested
  cases hreading : r.reading with
  | idle =>
    refine ⟨rfl, ?_⟩
    rcases hr' with rfl | rfl
    · rw [finish, hreading] at hsettings hlines
      exact ⟨hsettings, hlines⟩
    · rw [feed_brace_of_idle hreading, finish, warn] at hsettings hlines
      simp only [hreading] at hsettings hlines
      exact ⟨hsettings, hlines⟩
  | nested j =>
    exfalso
    have hj : 0 < j := by
      have h := (Tidy.empty.feedAll htidy line).depth
      rw [hr] at h
      exact h j hreading
    have hseen : seenLines es nested = seenLines es [] ++ nested := by
      rw [seenLines, seenLines, List.append_nil, List.map_append,
        List.map_congr_left fun t ht => (hnested t ht).seen, List.map_id']
    rw [hseen] at hr
    refine append_replicate_ne {} hj _ (by rw [hr]; exact hreading) ?_
    rw [hr]
    rcases hr' with rfl | rfl
    · rw [finish, hreading] at hlines
      exact hlines
    · rw [← hlines, nested_finish_feed_brace hreading hj]
  | value v =>
    exfalso
    rcases hr' with rfl | rfl
    · have hle := items_feedAll_le htidy Tidy.empty line
      rw [finish, hreading] at hsettings hlines
      rw [hr, length_seenLines, items, hreading, OrderedMap.size,
        show r'.settings.entries = es from hsettings, show r'.nested = nested from hlines, items_empty,
        Reading.pending_value, List.length_singleton] at hle
      omega
    · refine nested_ne_of_value hkv hnested hr hreading n hsettings ?_
      rw [← hlines, feed_of_value hreading (by decide), continueValue]
      split
      · rw [finish, reading_assign, nested_assign]
      · rfl

theorem readsBack_of_finish (hnodup : (es.map Prod.fst).Nodup)
    (hkv : ∀ e ∈ es, e.1.IsKey ∧ e.2.IsValue) (hnested : ∀ t ∈ nested, t.IsCarried)
    (hr : feedAll {} line (seenLines es nested) = r) {n : Nat}
    (hr' : r' = r ∨ r' = r.feed n ['}']) (hsettings : r'.finish.settings.entries = es)
    (hlines : r'.finish.nested = nested) :
    (∀ e ∈ es, Text.ReadsBack e.1 e.2) ∧ CarriedFrom 0 nested := by
  have htidy := seenLines_tidy hkv hnested
  obtain ⟨hreading, hsettings, hlines⟩ :=
    reading_eq_idle_of_finish hkv hnested hr hr' hsettings hlines
  have hitems : (feedAll {} line (seenLines es nested)).items =
      items {} + (seenLines es nested).length := by
    rw [hr, length_seenLines, items, hreading, OrderedMap.size, hsettings, hlines]
    simp
  have hgains := gains_of_items htidy Tidy.empty hitems
  have hreads := hgains.readsBack
    (fun t ht => by
      obtain ⟨u, hu, rfl⟩ := List.mem_map.1 ht
      exact ⟨Text.trim_trim u, Text.stripComment_trim (htidy u hu).2⟩)
    (fun e he => absurd he List.not_mem_nil)
  rw [hr, hsettings] at hreads
  refine ⟨hreads, ?_⟩
  -- the entries take up their own lines, so what the other lines add are lines of sub-blocks
  have hfirst : feedAll {} line (seenLines es []) = { settings := OrderedMap.ofList es } :=
    feedAll_written hnodup hkv hreads (fun t ht => absurd ht List.not_mem_nil) rfl line
  have hseen : seenLines es nested = seenLines es [] ++ nested := by
    rw [seenLines, seenLines, List.append_nil, List.map_append,
      List.map_congr_left fun t ht => (hnested t ht).seen, List.map_id']
  rw [hseen, feedAll_append, hfirst] at hr
  have htidy' : Tidy { settings := OrderedMap.ofList es } := by
    rw [← hfirst]
    exact Tidy.empty.feedAll (seenLines_tidy hkv fun t ht => absurd ht List.not_mem_nil) line
  have hsize : (OrderedMap.ofList es).size = es.length := by
    rw [OrderedMap.size, OrderedMap.entries_ofList hnodup]
  have hitems' : (feedAll { settings := OrderedMap.ofList es }
      (line + (seenLines es []).length) nested).items =
        items { settings := OrderedMap.ofList es } + nested.length := by
    rw [hr, items, hreading, OrderedMap.size, hsettings, hlines, items, hsize]
    simp
  have hgains' :=
    gains_of_items (fun t ht => ⟨(hnested t ht).noBreak, (hnested t ht).bare⟩) htidy' hitems'
  rw [hr, List.map_congr_left fun t ht => (hnested t ht).trim, List.map_id'] at hgains'
  refine hgains'.carriedFrom rfl hreading ?_
  rw [OrderedMap.size, hsettings, hsize]

end

end BodyReader
end HeadJob
