import Mathlib.Algebra.Order.Field.Power
import Mathlib.Data.Nat.Log
import Mathlib.Data.Rat.Cast.Order
import Mathlib.Tactic.FieldSimp
import Mathlib.Tactic.Linarith
import Mathlib.Tactic.NormNum
import Mathlib.Tactic.Positivity
import Mathlib.Tactic.Ring
import HeadJob.Number.Binary64

/-!
Where the binary format ends.

A decimal is infinite exactly if it lies half a step or more beyond the largest number, that is from
`2 ^ 1024 - 2 ^ 970` on.
-/

namespace HeadJob

/-- The number that a decimal stands for. -/
def Decimal.value (d : Decimal) : ℚ := d.digits * (10 : ℚ) ^ d.exponent

/-! ## Ratios -/

theorem scaleRatio_quotient {base : Nat} (hb : 0 < base) (e : Int) (num den : Nat) :
    ((scaleRatio base e num den).1 : ℚ) / (scaleRatio base e num den).2 =
      (num : ℚ) / den * (base : ℚ) ^ e := by
  have hbase : (base : ℚ) ≠ 0 := by exact_mod_cast hb.ne'
  have hsplit : (base : ℚ) ^ e = (base : ℚ) ^ e.toNat / (base : ℚ) ^ (-e).toNat := by
    rw [← zpow_natCast, ← zpow_natCast, ← zpow_sub₀ hbase]
    congr 1
    omega
  simp only [scaleRatio, Nat.pow_eq, Nat.cast_mul, Nat.cast_pow]
  rw [hsplit, div_mul_div_comm]

/-- The binary logarithm, rounded down. -/
theorem log2Ratio_bounds {num den : Nat} (hn : 0 < num) (hd : 0 < den) :
    (2 : ℚ) ^ Binary64.log2Ratio num den ≤ (num : ℚ) / den ∧
      (num : ℚ) / den < (2 : ℚ) ^ (Binary64.log2Ratio num den + 1) := by
  have hden : (0 : ℚ) < den := by exact_mod_cast hd
  have hn₁ : (2 : ℚ) ^ (num.log2 : ℤ) ≤ num := by exact_mod_cast Nat.log2_self_le hn.ne'
  have hn₂ : (num : ℚ) < 2 ^ ((num.log2 : ℤ) + 1) := by exact_mod_cast Nat.lt_log2_self (n := num)
  have hd₁ : (2 : ℚ) ^ (den.log2 : ℤ) ≤ den := by exact_mod_cast Nat.log2_self_le hd.ne'
  have hd₂ : (den : ℚ) < 2 ^ ((den.log2 : ℤ) + 1) := by exact_mod_cast Nat.lt_log2_self (n := den)
  -- The difference of the logarithms is right or one too large, which the comparison decides.
  obtain ⟨e, he⟩ : ∃ e : ℤ, e = num.log2 - den.log2 := ⟨_, rfl⟩
  have hlog : Binary64.log2Ratio num den =
      if (scaleRatio 2 (-e) num den).2 ≤ (scaleRatio 2 (-e) num den).1 then e else e - 1 := by
    rw [he]
    rfl
  have hlow : (2 : ℚ) ^ (e - 1) ≤ num / den := by
    rw [le_div_iff₀ hden]
    calc (2 : ℚ) ^ (e - 1) * den ≤ 2 ^ (e - 1) * 2 ^ ((den.log2 : ℤ) + 1) := by gcongr
      _ = 2 ^ (num.log2 : ℤ) := by rw [← zpow_add₀ two_ne_zero]; congr 1; omega
      _ ≤ num := hn₁
  have hhigh : (num : ℚ) / den < 2 ^ (e + 1) := by
    rw [div_lt_iff₀ hden]
    calc (num : ℚ) < 2 ^ ((num.log2 : ℤ) + 1) := hn₂
      _ = 2 ^ (e + 1) * 2 ^ (den.log2 : ℤ) := by rw [← zpow_add₀ two_ne_zero]; congr 1; omega
      _ ≤ 2 ^ (e + 1) * den := by gcongr
  have hscaled := scaleRatio_quotient Nat.two_pos (-e) num den
  have hpos : (0 : ℚ) < (scaleRatio 2 (-e) num den).2 := by
    exact_mod_cast scaleRatio_den_pos two_pos hd _ _
  have hle : (scaleRatio 2 (-e) num den).2 ≤ (scaleRatio 2 (-e) num den).1 ↔
      (2 : ℚ) ^ e ≤ num / den := by
    rw [← Nat.cast_le (α := ℚ), ← one_le_div hpos, hscaled, Nat.cast_ofNat, zpow_neg,
      ← div_eq_mul_inv, one_le_div (zpow_pos two_pos _)]
  rw [hlog]
  split
  next h => exact ⟨hle.1 h, hhigh⟩
  next h => exact ⟨hlow, by rw [sub_add_cancel]; exact not_le.1 (mt hle.2 h)⟩

/-- Rounding reaches an even number from below at half a step, the tie included. -/
theorem roundDiv_eq_iff_of_even {num den k : Nat} (hd : 0 < den) (hk : k % 2 = 0)
    (h : num < k * den) : roundDiv num den = k ↔ 2 * (k * den) ≤ 2 * num + den := by
  have hdiv := Nat.div_add_mod num den
  have hmod := Nat.mod_lt num hd
  have hlt : num / den < k := (Nat.div_lt_iff_lt_mul hd).2 h
  rw [Nat.mul_comm] at hdiv
  by_cases hq : num / den + 1 = k
  · have hkd : k * den = num / den * den + den := by rw [← hq, Nat.succ_mul]
    simp only [roundDiv]
    split
    · omega
    · split
      · omega
      · omega
  · have hkd : num / den * den + 2 * den ≤ k * den := by
      rw [← Nat.add_mul]
      exact Nat.mul_le_mul_right den (by omega)
    have hclose := @roundDiv_close num den hd
    constructor
    · intro hround
      rw [hround] at hclose
      omega
    · omega

namespace Binary64

/-! ## The largest numbers -/

theorem ofCarried_eq_infinite_iff {m : Nat} {e : Int} :
    ofCarried m e = infinite ↔ 971 < e ∨ (m = mantissaLimit ∧ e = 971) := by
  unfold ofCarried maxExponent
  by_cases hm : m = mantissaLimit
  · simp only [hm, if_true]
    split <;> simp <;> omega
  · simp only [hm, if_false]
    split <;> simp <;> omega

/-- The exponent is that of the largest numbers exactly for ratios with as many binary places. -/
theorem exponentOf_cases (num den : Nat) :
    (log2Ratio num den < 1023 ∧ exponentOf num den < 971) ∨
      (log2Ratio num den = 1023 ∧ exponentOf num den = 971) ∨
      (1023 < log2Ratio num den ∧ 971 < exponentOf num den) := by
  unfold exponentOf minExponent
  dsimp only
  split <;> omega

/-- Half a step beyond the largest number, in two forms. -/
theorem half_step_beyond :
    (2 : ℚ) ^ (1024 : ℤ) - 2 ^ (970 : ℤ) = (2 ^ (53 : ℤ) - 1 / 2) * 2 ^ (971 : ℤ) := by
  have h₁ : (2 : ℚ) ^ (1024 : ℤ) = 2 ^ (53 : ℤ) * 2 ^ (971 : ℤ) := by
    rw [← zpow_add₀ two_ne_zero]; rfl
  have h₂ : (2 : ℚ) ^ (971 : ℤ) = 2 * 2 ^ (970 : ℤ) := by
    rw [← zpow_one_add₀ two_ne_zero]; rfl
  rw [h₁, h₂]
  ring

theorem lt_half_step_beyond : (2 : ℚ) ^ (1023 : ℤ) < 2 ^ (1024 : ℤ) - 2 ^ (970 : ℤ) := by
  have hdouble : (2 : ℚ) ^ (1024 : ℤ) = 2 * 2 ^ (1023 : ℤ) := by
    rw [← zpow_one_add₀ two_ne_zero]; rfl
  have hless : (2 : ℚ) ^ (970 : ℤ) < 2 ^ (1023 : ℤ) := by gcongr <;> norm_num
  rw [hdouble, two_mul]
  exact lt_sub_iff_add_lt.2 (add_lt_add_right hless _)

theorem half_step_beyond_le : (2 : ℚ) ^ (1024 : ℤ) - 2 ^ (970 : ℤ) ≤ 2 ^ (1024 : ℤ) :=
  sub_le_self _ (by positivity)

/-- At the largest exponent a mantissa is carried from half a step beyond the largest one on. -/
theorem roundDiv_eq_mantissaLimit_iff {num den : Nat} (hd : 0 < den)
    (hlt : (num : ℚ) / den < 2 ^ (1024 : ℤ)) :
    roundDiv (scaleRatio 2 (-971) num den).1 (scaleRatio 2 (-971) num den).2 = mantissaLimit ↔
      (2 : ℚ) ^ (1024 : ℤ) - 2 ^ (970 : ℤ) ≤ (num : ℚ) / den := by
  have hscaled := scaleRatio_quotient Nat.two_pos (-971) num den
  have hpos := scaleRatio_den_pos Nat.two_pos hd (-971) num
  generalize (scaleRatio 2 (-971) num den).1 = n at *
  generalize (scaleRatio 2 (-971) num den).2 = d at *
  have hd' : (0 : ℚ) < d := by exact_mod_cast hpos
  have hlimit : (mantissaLimit : ℚ) = 2 ^ (53 : ℤ) := by norm_num [mantissaLimit]
  have hstep : (0 : ℚ) < 2 ^ (971 : ℤ) := by positivity
  have hback : (num : ℚ) / den = n / d * 2 ^ (971 : ℤ) := by
    rw [hscaled, Nat.cast_ofNat, mul_assoc, ← zpow_add₀ two_ne_zero]
    simp
  have hn : n < mantissaLimit * d := by
    have hfits : (n : ℚ) / d < mantissaLimit := by
      rw [hlimit]
      refine lt_of_mul_lt_mul_right ?_ hstep.le
      rw [← hback, ← zpow_add₀ two_ne_zero]
      exact hlt
    exact_mod_cast (div_lt_iff₀ hd').1 hfits
  rw [roundDiv_eq_iff_of_even hpos (by decide) hn, half_step_beyond, hback,
    mul_le_mul_iff_left₀ hstep, ← hlimit, le_div_iff₀ hd', ← Nat.cast_le (α := ℚ)]
  push_cast
  constructor <;> intro h <;> linarith

theorem ofRatio_eq_infinite_iff (num : Nat) {den : Nat} (hd : 0 < den) :
    ofRatio num den = infinite ↔ (2 : ℚ) ^ (1024 : ℤ) - 2 ^ (970 : ℤ) ≤ (num : ℚ) / den := by
  rcases Nat.eq_zero_or_pos num with rfl | hn
  · have hpos : (0 : ℚ) < 2 ^ (1024 : ℤ) - 2 ^ (970 : ℤ) :=
      lt_trans (by positivity) lt_half_step_beyond
    simpa [ofRatio] using hpos
  · obtain ⟨hlow, hhigh⟩ := log2Ratio_bounds hn hd
    have hunfold : ofRatio num den =
        ofCarried (roundDiv (scaleRatio 2 (-exponentOf num den) num den).1
          (scaleRatio 2 (-exponentOf num den) num den).2) (exponentOf num den) := by
      unfold ofRatio
      rw [if_neg hn.ne']
    rw [hunfold, ofCarried_eq_infinite_iff]
    rcases exponentOf_cases num den with ⟨hlog, he⟩ | ⟨hlog, he⟩ | ⟨hlog, he⟩
    · -- All binary places are taken below the largest exponent.
      have hlt : (num : ℚ) / den < 2 ^ (1023 : ℤ) :=
        lt_of_lt_of_le hhigh (zpow_le_zpow_right₀ one_le_two (by omega))
      have hno : ¬(2 : ℚ) ^ (1024 : ℤ) - 2 ^ (970 : ℤ) ≤ num / den :=
        not_le.2 (hlt.trans lt_half_step_beyond)
      simp only [hno, iff_false]
      omega
    · have hlt : (num : ℚ) / den < 2 ^ (1024 : ℤ) := by rwa [hlog] at hhigh
      rw [he, ← roundDiv_eq_mantissaLimit_iff hd hlt]
      simp
    · have hge : (2 : ℚ) ^ (1024 : ℤ) ≤ num / den :=
        le_trans (zpow_le_zpow_right₀ one_le_two (by omega)) hlow
      exact ⟨fun _ => half_step_beyond_le.trans hge, fun _ => .inl he⟩

/-! ## Decimals -/

theorem digits_bounds {n : Nat} (hn : 0 < n) :
    (10 : ℚ) ^ ((Nat.toDigits 10 n).length - 1 : ℤ) ≤ n ∧
      (n : ℚ) < 10 ^ ((Nat.toDigits 10 n).length : ℤ) := by
  have hlen : 0 < (Nat.toDigits 10 n).length := List.length_pos_iff.2 Nat.toDigits_ne_nil
  constructor
  · obtain ⟨k, hk⟩ : ∃ k, (Nat.toDigits 10 n).length = k + 1 :=
      ⟨_, (Nat.succ_pred_eq_of_pos hlen).symm⟩
    have hle : 10 ^ k ≤ n := by
      rcases Nat.eq_zero_or_pos k with rfl | hkpos
      · exact hn
      · by_contra hlt
        have := (Nat.length_toDigits_le_iff (by decide) hkpos).2 (not_le.1 hlt)
        omega
    rw [hk, Nat.cast_succ, add_sub_cancel_right, zpow_natCast]
    exact_mod_cast hle
  · have hlt := (Nat.length_toDigits_le_iff (b := 10) (by decide) hlen).1 le_rfl
    rw [zpow_natCast]
    exact_mod_cast hlt

/-- A decimal lies between the powers of ten that the number of its digits tells. -/
theorem value_bounds {d : Decimal} (hd : 0 < d.digits) :
    (10 : ℚ) ^ ((Nat.toDigits 10 d.digits).length + d.exponent - 1) ≤ d.value ∧
      d.value < (10 : ℚ) ^ ((Nat.toDigits 10 d.digits).length + d.exponent) := by
  obtain ⟨hlow, hhigh⟩ := digits_bounds hd
  have hten : (0 : ℚ) < 10 ^ d.exponent := by positivity
  constructor
  · rw [add_sub_right_comm, zpow_add₀ (by norm_num)]
    exact mul_le_mul_of_nonneg_right hlow hten.le
  · rw [zpow_add₀ (by norm_num)]
    exact mul_lt_mul_of_pos_right hhigh hten

theorem two_zpow_le_ten_zpow : (2 : ℚ) ^ (1024 : ℤ) ≤ 10 ^ (310 : ℤ) := by
  calc (2 : ℚ) ^ (1024 : ℤ) ≤ 2 ^ (205 * 5 : ℤ) := zpow_le_zpow_right₀ one_le_two (by norm_num)
    _ = (2 ^ (205 : ℤ)) ^ (5 : ℤ) := zpow_mul _ _ _
    _ ≤ (10 ^ (62 : ℤ)) ^ (5 : ℤ) := zpow_le_zpow_left₀ (by norm_num) (by norm_num) (by norm_num)
    _ = 10 ^ (62 * 5 : ℤ) := (zpow_mul _ _ _).symm
    _ = 10 ^ (310 : ℤ) := rfl

/-- A decimal is infinite from half a step beyond the largest number on. -/
theorem ofDecimal_eq_infinite_iff (d : Decimal) :
    ofDecimal d = infinite ↔ (2 : ℚ) ^ (1024 : ℤ) - 2 ^ (970 : ℤ) ≤ d.value := by
  have hone : (1 : ℚ) < 2 ^ (1024 : ℤ) - 2 ^ (970 : ℤ) :=
    lt_of_le_of_lt (one_le_zpow₀ one_le_two (by norm_num)) lt_half_step_beyond
  rcases Nat.eq_zero_or_pos d.digits with hzero | hdigits
  · simpa [ofDecimal, hzero, Decimal.value] using one_pos.trans hone
  · obtain ⟨hlow, hhigh⟩ := value_bounds hdigits
    unfold ofDecimal
    rw [if_neg hdigits.ne']
    dsimp only
    -- The powers of ten that are never computed are decided by the number of digits alone.
    split
    next hsize =>
      have hge : (2 : ℚ) ^ (1024 : ℤ) ≤ d.value := by
        calc (2 : ℚ) ^ (1024 : ℤ) ≤ 10 ^ (310 : ℤ) := two_zpow_le_ten_zpow
          _ ≤ 10 ^ ((Nat.toDigits 10 d.digits).length + d.exponent - 1) :=
            zpow_le_zpow_right₀ (by norm_num) (by omega)
          _ ≤ d.value := hlow
      exact ⟨fun _ => half_step_beyond_le.trans hge, fun _ => rfl⟩
    next =>
      split
      next hsize =>
        have hlt : d.value < 2 ^ (1024 : ℤ) - 2 ^ (970 : ℤ) := by
          calc d.value < 10 ^ ((Nat.toDigits 10 d.digits).length + d.exponent) := hhigh
            _ ≤ 1 := zpow_le_one_of_nonpos₀ (by norm_num) (by omega)
            _ < 2 ^ (1024 : ℤ) - 2 ^ (970 : ℤ) := hone
        exact ⟨nofun, fun h => absurd h (not_le.2 hlt)⟩
      next =>
        have hratio := scaleRatio_quotient (by decide : 0 < 10) d.exponent d.digits 1
        rw [ofRatio_eq_infinite_iff _ (scaleRatio_den_pos (by norm_num) one_pos _ _), hratio,
          Nat.cast_one, div_one]
        rfl

theorem value_pos_of_ofDecimal {d : Decimal} {m : Nat} {e : Int} (h : ofDecimal d = finite m e)
    (hm : m ≠ 0) : 0 < d.value := by
  have hdigits : 0 < d.digits := by
    refine Nat.pos_of_ne_zero fun hzero => hm ?_
    unfold ofDecimal at h
    rw [if_pos hzero] at h
    cases h
    rfl
  exact mul_pos (by exact_mod_cast hdigits) (by positivity)

end Binary64
end HeadJob
