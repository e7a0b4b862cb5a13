import HeadJob.Proofs.Config.Reader

/-!
The braces of the sub-blocks that are carried through.

A reader counts the braces of a sub-block line by line, beginning with the line that opened it, whether it
carries that line or drops it.  The lines it carries are balanced exactly as long as they agree with that
count, and once they are behind it they stay behind.
-/

namespace HeadJob

open Delimiter (braces)

namespace Delimiter

theorem neverNegative_append {d : Delimiter} {a b : Text} :
    d.NeverNegative (a ++ b) ↔ d.NeverNegative a ∧ ∀ p ∈ b.inits, 0 ≤ d.balance a + d.balance p := by
  have hprefix : ∀ p, p ∈ (a ++ b).inits ↔ p ∈ a.inits ∨ ∃ q ∈ b.inits, p = a ++ q := by
    intro p
    simp only [List.mem_inits]
    constructor
    · rintro ⟨r, hr⟩
      rcases List.append_eq_append_iff.1 hr with ⟨q, rfl, -⟩ | ⟨q, rfl, hb⟩
      · exact .inl (List.prefix_append p q)
      · exact .inr ⟨q, ⟨r, hb.symm⟩, rfl⟩
    · rintro (h | ⟨q, h, rfl⟩)
      · exact h.trans (List.prefix_append a b)
      · exact (List.prefix_append_right_inj a).2 h
  simp only [NeverNegative, hprefix]
  constructor
  · refine fun h => ⟨fun p hp => h p (.inl hp), fun q hq => ?_⟩
    rw [← balance_append]
    exact h _ (.inr ⟨q, hq, rfl⟩)
  · rintro ⟨ha, hb⟩ p (hp | ⟨q, hq, rfl⟩)
    · exact ha p hp
    · rw [balance_append]
      exact hb q hq

theorem NeverNegative.balance_nonneg {d : Delimiter} {t : Text} (h : d.NeverNegative t) :
    0 ≤ d.balance t := h t (by simp)

end Delimiter

/-- One after another the lines close no brace that they have not opened, and leave none open. -/
def Text.AreBalanced (ls : List Text) : Prop :=
  braces.NeverNegative (ls.flatMap Scan.start.outside) ∧
    braces.balance (ls.flatMap Scan.start.outside) = 0

instance (ls : List Text) : Decidable (Text.AreBalanced ls) :=
  inferInstanceAs (Decidable (_ ∧ _))

namespace Reading

/-- How many braces are open in the sub-block that the next line belongs to. -/
def depth : Reading → Nat
  | nested depth => depth
  | _ => 0

@[simp] theorem depth_idle : idle.depth = 0 := rfl

@[simp] theorem depth_nested (n : Nat) : (nested n).depth = n := rfl

@[simp] theorem depth_value (v : OpenValue) : (value v).depth = 0 := rfl

@[simp] theorem depth_ofDepth (n : Int) : (ofDepth n).depth = n.toNat := by
  unfold ofDepth
  split
  · rfl
  · rw [depth_idle]
    omega

/-- A line does the carried lines no harm: one that is carried closes nothing that is not open, and one
that is dropped leaves nothing open. -/
def Keeps : Reading → Text → Prop
  | idle, t =>
    if t.opensSubBlock then braces.NeverNegative (Scan.start.outside t)
    else t.assignment? = none → braces.netChange t ≤ 0
  | nested depth, t => ∀ p ∈ (Scan.start.outside t).inits, 0 ≤ (depth : Int) + braces.balance p
  | value _, _ => True

theorem keeps_nil (r : Reading) : r.Keeps [] := by
  cases r with
  | idle => exact fun _ => Int.le_refl 0
  | nested depth =>
    intro p hp
    rw [List.mem_inits, show Scan.start.outside [] = [] from rfl, List.prefix_nil] at hp
    subst hp
    exact Int.natCast_nonneg depth
  | value v => trivial

theorem keeps_of_assignment? {t : Text} {kv : Text × Text} (hopens : t.opensSubBlock = false)
    (hassign : t.assignment? = some kv) : idle.Keeps t := by
  simp [Keeps, hopens, hassign]

end Reading

namespace BodyReader

variable {r r' : BodyReader} {line : Nat} {t : Text}

/-- What a line does to the sub-blocks. -/
inductive Carries (t : Text) (r r' : BodyReader) : Prop
  | carried (hnested : r'.nested = r.nested ++ [t])
      (hdepth : r'.reading.depth = (r.reading.depth + braces.netChange t).toNat)
      (hkeeps : r.reading.Keeps t ↔
        ∀ p ∈ (Scan.start.outside t).inits, 0 ≤ (r.reading.depth : Int) + braces.balance p)
  | dropped (hnested : r'.nested = r.nested) (hr : r.reading.depth = 0)
      (hdepth : r'.reading.depth = (braces.netChange t).toNat)
      (hkeeps : r.reading.Keeps t ↔ braces.netChange t ≤ 0)
  | unchanged (hnested : r'.nested = r.nested) (hdepth : r'.reading.depth = r.reading.depth)
      (hkeeps : r.reading.Keeps t)

theorem Step.carries (hstep : Step line t r r') : Carries t r r' := by
  cases hstep with
  | blank ht => exact .unchanged rfl rfl (ht ▸ Reading.keeps_nil r.reading)
  | carry depth _ hr =>
    refine .carried rfl (by simp [hr]) ?_
    rw [hr]
    rfl
  | openBlock _ hr hopens =>
    refine .carried rfl (by simp [hr]) ?_
    simp [hr, Reading.Keeps, hopens, Delimiter.NeverNegative]
  | skip _ hr hassign hopens =>
    refine .dropped rfl (by simp [hr]) (by simp) ?_
    simp [hr, Reading.Keeps, hopens, hassign]
  | excess key d _ hr value hassign hopens =>
    refine .unchanged rfl rfl ?_
    rw [hr]
    exact Reading.keeps_of_assignment? hopens hassign
  | openValue key value d _ hr hassign hopens =>
    refine .unchanged rfl (by simp [hr]) ?_
    rw [hr]
    exact Reading.keeps_of_assignment? hopens hassign
  | assign key value _ hr hopens hassign =>
    refine .unchanged (nested_assign _ _ _ _) (by simp [hr]) ?_
    rw [hr]
    exact Reading.keeps_of_assignment? hopens hassign
  | extend v depth _ hr => exact .unchanged rfl (by simp [hr]) (by rw [hr]; trivial)
  | close v _ hr =>
    exact .unchanged (nested_assign _ _ _ _) (by simp [hr]) (by rw [hr]; trivial)

/-- The marks of the lines that are carried, each scanned for itself. -/
def carriedMarks (r : BodyReader) : Text := r.nested.flatMap Scan.start.outside

theorem carriedMarks_congr (h : r'.nested = r.nested) : r'.carriedMarks = r.carriedMarks :=
  congrArg (List.flatMap Scan.start.outside) h

theorem carriedMarks_append (h : r'.nested = r.nested ++ [t]) :
    r'.carriedMarks = r.carriedMarks ++ Scan.start.outside t := by
  rw [carriedMarks, h, List.flatMap_append, List.flatMap_singleton]
  rfl

/-- Less is open in the lines that are carried than the reader counts, if not as much. -/
theorem Step.balance_le (h : braces.balance r.carriedMarks ≤ r.reading.depth)
    (hstep : Step line t r r') : braces.balance r'.carriedMarks ≤ r'.reading.depth := by
  cases hstep.carries with
  | carried hnested hdepth =>
    rw [carriedMarks_append hnested, Delimiter.balance_append, hdepth,
      ← Delimiter.netChange_eq_balance]
    omega
  | dropped hnested hr hdepth =>
    rw [carriedMarks_congr hnested, hdepth]
    omega
  | unchanged hnested hdepth =>
    rwa [carriedMarks_congr hnested, hdepth]

/-- The lines that are carried have as many braces open as the reader counts. -/
structure Even (r : BodyReader) : Prop where
  stays : braces.NeverNegative r.carriedMarks
  depth : braces.balance r.carriedMarks = r.reading.depth

theorem Step.even_iff (h : braces.balance r.carriedMarks ≤ r.reading.depth)
    (hstep : Step line t r r') : r'.Even ↔ r.Even ∧ r.reading.Keeps t := by
  cases hstep.carries with
  | carried hnested hdepth hkeeps =>
    have hmarks := carriedMarks_append hnested
    have hbalance : braces.balance r'.carriedMarks =
        braces.balance r.carriedMarks + braces.netChange t := by
      rw [hmarks, Delimiter.balance_append]
      rfl
    rw [hkeeps]
    constructor
    · rintro ⟨hstays, hdepth'⟩
      -- what is carried now is not negative, so the count was not cut off at zero
      have hnonneg := hstays.balance_nonneg
      rw [hmarks, Delimiter.neverNegative_append] at hstays
      have heven : braces.balance r.carriedMarks = r.reading.depth := by omega
      exact ⟨⟨hstays.1, heven⟩, by rw [← heven]; exact hstays.2⟩
    · rintro ⟨⟨hstays, heven⟩, hprefixes⟩
      rw [← heven] at hprefixes
      have hstays' : braces.NeverNegative r'.carriedMarks := by
        rw [hmarks]
        exact Delimiter.neverNegative_append.2 ⟨hstays, hprefixes⟩
      have hnonneg := hstays'.balance_nonneg
      exact ⟨hstays', by omega⟩
  | dropped hnested hr hdepth hkeeps =>
    have hmarks := carriedMarks_congr hnested
    rw [hkeeps]
    constructor
    · rintro ⟨hstays, hdepth'⟩
      rw [hmarks] at hstays hdepth'
      have hnonneg := hstays.balance_nonneg
      exact ⟨⟨hstays, by omega⟩, by omega⟩
    · rintro ⟨⟨hstays, heven⟩, hnet⟩
      rw [← hmarks] at hstays heven
      exact ⟨hstays, by omega⟩
  | unchanged hnested hdepth hkeeps =>
    have hmarks := carriedMarks_congr hnested
    refine ⟨fun ⟨hstays, heven⟩ => ⟨⟨?_, ?_⟩, hkeeps⟩, fun ⟨⟨hstays, heven⟩, _⟩ => ⟨?_, ?_⟩⟩
    · rwa [← hmarks]
    · rwa [← hmarks, ← hdepth]
    · rwa [hmarks]
    · rwa [hmarks, hdepth]

/-- Line by line it can be told whether the braces are still even after them all. -/
theorem even_feedAll_iff {ts : List Text} (h : braces.balance r.carriedMarks ≤ r.reading.depth)
    (line : Nat) :
    (r.feedAll line ts).Even ↔
      r.Even ∧ ∀ a t b, ts = a ++ t :: b → (r.feedAll line a).reading.Keeps t.trim := by
  induction ts generalizing r line with
  | nil => simp [feedAll]
  | cons t ts ih =>
    -- a reader that is not even stays so, since less is open than it counts
    have hstep := step_feed line t.trim r
    rw [feedAll, ih (hstep.balance_le h), hstep.even_iff h, and_assoc]
    refine and_congr_right fun _ => ⟨fun hkeeps a u b hsplit => ?_, fun hall => ?_⟩
    · obtain ⟨hfirst, hrest⟩ := hkeeps
      cases a with
      | nil =>
        cases hsplit
        exact hfirst
      | cons x a =>
        cases hsplit
        exact hrest a u b rfl
    · exact ⟨hall [] t ts rfl, fun a u b hsplit => hall (t :: a) u b (by rw [hsplit]; rfl)⟩

theorem areBalanced_finish_iff : Text.AreBalanced r.finish.nested ↔ r.Even := by
  have hclosed : r.finish.nested = r.nested ++ List.replicate r.reading.depth ['}'] := by
    unfold finish
    split <;> simp [*]
  have hmarks : r.finish.nested.flatMap Scan.start.outside =
      r.carriedMarks ++ List.replicate r.reading.depth '}' := by
    have hone : Scan.start.outside ['}'] = ['}'] := by decide
    rw [hclosed, List.flatMap_append, carriedMarks]
    simp [List.flatMap_replicate, hone]
  have hclosing : braces.change '}' = -1 := by decide
  rw [Text.AreBalanced, hmarks, Delimiter.neverNegative_append, Delimiter.balance_append,
    Delimiter.balance_replicate, hclosing]
  constructor
  · rintro ⟨⟨hstays, -⟩, hzero⟩
    exact ⟨hstays, by omega⟩
  · rintro ⟨hstays, heven⟩
    refine ⟨⟨hstays, fun p hp => ?_⟩, by omega⟩
    obtain ⟨hle, hp⟩ := List.prefix_replicate_iff.1 ((List.mem_inits _ _).1 hp)
    rw [hp, Delimiter.balance_replicate, hclosing]
    omega

end BodyReader
end HeadJob
