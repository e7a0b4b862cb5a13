import HeadJob.Launch.Resources
import HeadJob.Proofs.Number.Numeral

/-!
Which amounts of processors are accepted.

An amount that is accepted is a positive number and is requested in tenths, unless it is one of the
words for infinity and for no number or lies beyond the binary format.
-/

namespace HeadJob

/-- A decimal numeral: digits, a point and one digit. -/
def IsTenths (t : Text) : Prop :=
  ∃ ds c, t = ds ++ ['.', c] ∧ ds ≠ [] ∧ Numeral.AreDigits ds ∧ c.isDigit = true

theorem isTenths_tenthsText (n : Nat) : IsTenths (tenthsText n).toList := by
  have hdigits (m : Nat) : Numeral.AreDigits (Nat.toDigits 10 m) := fun _ hc =>
    Nat.isDigit_of_mem_toDigits (by decide) (by decide) hc
  have hlast : Nat.toDigits 10 (n % 10) = [Nat.digitChar (n % 10)] :=
    Nat.toDigits_of_lt_base (Nat.mod_lt _ (by decide))
  refine ⟨Nat.toDigits 10 (n / 10), Nat.digitChar (n % 10), ?_, Nat.toDigits_ne_nil, hdigits _, ?_⟩
  · rw [← hlast]
    simp [tenthsText]
  · exact hdigits (n % 10) _ (by rw [hlast]; exact List.mem_singleton_self _)

theorem not_isTenths_of_no_point {t : Text} (h : '.' ∉ t) : ¬IsTenths t := by
  rintro ⟨ds, c, rfl, -⟩
  exact h (by simp)

namespace Resources

variable {r : Resources} {s : String}

/-- An accepted amount is a positive number, and is requested in tenths, exactly if it is a number
below half a step beyond the largest one of the binary format. -/
theorem isTenths_cpuRequest_iff (h : r.cpuRequest = .ok s) :
    ((∃ q, Numeral.Denotes (Text.trim r.cpus.toList) q ∧ 0 < q) ∧ IsTenths s.toList) ↔
      ∃ q, Numeral.Denotes (Text.trim r.cpus.toList) q ∧ q < 2 ^ (1024 : ℤ) - 2 ^ (970 : ℤ) := by
  by_cases hnumber : ∃ q, Numeral.Denotes (Text.trim r.cpus.toList) q
  · obtain ⟨q, hq⟩ := hnumber
    obtain ⟨negative, d, hread, -⟩ := Numeral.denotes_iff.1 hq
    unfold cpuRequest at h
    rw [hread] at h
    cases negative with
    | true => cases h
    | false =>
      have hvalue (q : ℚ) : Numeral.Denotes (Text.trim r.cpus.toList) q ↔ d.value = q :=
        Numeral.denotes_iff_of_finite hread
      have hinfinite := Binary64.ofDecimal_eq_infinite_iff d
      simp only [hvalue, exists_eq_left']
      dsimp only at h
      split at h
      next hround =>
        cases h
        have hno : ¬IsTenths "inf".toList := not_isTenths_of_no_point (by decide)
        exact ⟨fun htenths => absurd htenths.2 hno,
          fun hless => absurd (hinfinite.1 hround) (not_le.2 hless)⟩
      next m e hround =>
        split at h
        next => cases h
        next hm =>
          cases h
          have hpos := Binary64.value_pos_of_ofDecimal hround hm
          have hless : d.value < 2 ^ (1024 : ℤ) - 2 ^ (970 : ℤ) :=
            not_le.1 (mt hinfinite.2 (by rw [hround]; exact nofun))
          exact ⟨fun _ => hless, fun _ => ⟨hpos, isTenths_tenthsText _⟩⟩
  · exact ⟨fun ⟨⟨q, hq, _⟩, _⟩ => absurd ⟨q, hq⟩ hnumber,
      fun ⟨q, hq, _⟩ => absurd ⟨q, hq⟩ hnumber⟩

theorem isTenths_cpuRequest_iff_of_two :
    (⟨"2", "4Gi"⟩ : Resources).cpuRequest = .ok "1.0" ∧
      (∃ q, Numeral.Denotes (Text.trim "2".toList) q ∧ 0 < q) ∧ IsTenths "1.0".toList := by
  have hrequest : (⟨"2", "4Gi"⟩ : Resources).cpuRequest = .ok "1.0" := by decide
  have hdenotes : Numeral.Denotes (Text.trim "2".toList) 2 :=
    Numeral.denotes_iff.2 ⟨false, ⟨2, 0⟩, by decide, by norm_num [Numeral.signed, Decimal.value]⟩
  have hless : (2 : ℚ) < 2 ^ (1024 : ℤ) - 2 ^ (970 : ℤ) := by
    calc (2 : ℚ) = 2 ^ (1 : ℤ) := (zpow_one 2).symm
      _ ≤ 2 ^ (1023 : ℤ) := zpow_le_zpow_right₀ one_le_two (by norm_num)
      _ < 2 ^ (1024 : ℤ) - 2 ^ (970 : ℤ) := Binary64.lt_half_step_beyond
  exact ⟨hrequest, (isTenths_cpuRequest_iff hrequest).2 ⟨2, hdenotes, hless⟩⟩

/-- What is no number is accepted, and so is what is too large for the binary format; neither is
requested in tenths. -/
theorem not_isTenths_cpuRequest :
    (⟨"NaN", "4Gi"⟩ : Resources).cpuRequest = .ok "NaN" ∧
      (¬∃ q, Numeral.Denotes (Text.trim "NaN".toList) q) ∧ ¬IsTenths "NaN".toList ∧
      (⟨"1e999", "4Gi"⟩ : Resources).cpuRequest = .ok "inf" ∧ ¬IsTenths "inf".toList := by
  have hread : Numeral.ofText? (Text.trim "NaN".toList) = some ⟨false, .notANumber⟩ := by decide
  exact ⟨by decide, Numeral.not_denotes_of_ne_finite hread nofun,
    not_isTenths_of_no_point (by decide), by decide, not_isTenths_of_no_point (by decide)⟩

end Resources
end HeadJob
