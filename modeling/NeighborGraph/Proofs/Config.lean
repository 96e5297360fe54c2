import NeighborGraph.Config.Basic

/-!
# What accepted settings are

`Config.validate` goes through its conditions one after the other, so settings that pass meet them
all.
-/

namespace NeighborGraph.Config

/-- A condition that is followed by more conditions. -/
theorem of_require {condition : Bool} {cause : ConfigFault} {rest : Checked Unit}
    (h : (do require condition cause; rest) = .ok ()) : condition = true ∧ rest = .ok () := by
  cases condition with
  | true => exact ⟨rfl, h⟩
  | false => cases h

theorem maxIterations_pos {c : Config} (valid : c.validate = .ok ()) :
    0 < c.maxIterations.toNat := by
  rw [validate] at valid
  obtain ⟨-, valid⟩ := of_require valid
  obtain ⟨some, -⟩ := of_require valid
  have some : c.maxIterations ≠ 0 := of_decide_eq_true some
  refine Nat.pos_of_ne_zero ?_
  intro none
  exact some (UInt64.toNat_inj.mp none)

theorem topK_le {c : Config} (valid : c.validate = .ok ()) : c.topK ≤ largestTopK := by
  rw [validate] at valid
  obtain ⟨-, valid⟩ := of_require valid
  obtain ⟨-, valid⟩ := of_require valid
  exact of_decide_eq_true (of_require valid).1

/-- A setting between zero and one that is followed by more conditions. -/
theorem of_checkUnit {field : String} {zeroAllowed : Bool} {value : Float} {rest : Checked Unit}
    (h : (do checkUnit field zeroAllowed value; rest) = .ok ()) :
    ((if zeroAllowed then decide (0.0 ≤ value) else decide (0.0 < value)) = true ∧ value ≤ 1.0)
      ∧ rest = .ok () := by
  by_cases unit : (if zeroAllowed then decide (0.0 ≤ value) else decide (0.0 < value)) = true
      ∧ value ≤ 1.0
  · rw [checkUnit, if_pos unit] at h
    exact ⟨unit, h⟩
  · rw [checkUnit, if_neg unit] at h
    cases h

/-- Accepted rates are between zero and one, and the sample rate is not zero. -/
theorem rates_unit {c : Config} (valid : c.validate = .ok ()) :
    (0.0 < c.sampleRate ∧ c.sampleRate ≤ 1.0) ∧
      (0.0 ≤ c.deltaThreshold ∧ c.deltaThreshold ≤ 1.0) ∧
      (0.0 ≤ c.similarityCutoff ∧ c.similarityCutoff ≤ 1.0) ∧
      (0.0 ≤ c.perturbationRate ∧ c.perturbationRate ≤ 1.0) := by
  rw [validate] at valid
  obtain ⟨-, valid⟩ := of_require valid
  obtain ⟨-, valid⟩ := of_require valid
  obtain ⟨-, valid⟩ := of_require valid
  obtain ⟨⟨sampleLow, sample⟩, valid⟩ := of_checkUnit valid
  obtain ⟨⟨deltaLow, delta⟩, valid⟩ := of_checkUnit valid
  obtain ⟨⟨cutoffLow, cutoff⟩, valid⟩ := of_checkUnit valid
  obtain ⟨⟨perturbationLow, perturbation⟩, -⟩ := of_checkUnit valid
  exact ⟨⟨of_decide_eq_true sampleLow, sample⟩, ⟨of_decide_eq_true deltaLow, delta⟩,
    ⟨of_decide_eq_true cutoffLow, cutoff⟩, ⟨of_decide_eq_true perturbationLow, perturbation⟩⟩

/-- The chance that a random node hears of another one is a probability. -/
theorem perturbationRate_unit {c : Config} (valid : c.validate = .ok ()) :
    0.0 ≤ c.perturbationRate ∧ c.perturbationRate ≤ 1.0 :=
  (rates_unit valid).2.2.2

/-- Other rates within the same bounds are accepted, too. -/
theorem validate_rates {c : Config}
    {sampleRate deltaThreshold similarityCutoff perturbationRate : Float}
    (valid : c.validate = .ok ()) (sample : 0.0 < sampleRate ∧ sampleRate ≤ 1.0)
    (delta : 0.0 ≤ deltaThreshold ∧ deltaThreshold ≤ 1.0)
    (cutoff : 0.0 ≤ similarityCutoff ∧ similarityCutoff ≤ 1.0)
    (perturbation : 0.0 ≤ perturbationRate ∧ perturbationRate ≤ 1.0) :
    validate { c with sampleRate, deltaThreshold, similarityCutoff, perturbationRate } = .ok () := by
  rw [validate] at valid
  obtain ⟨concurrency, valid⟩ := of_require valid
  obtain ⟨iterations, valid⟩ := of_require valid
  obtain ⟨topK, valid⟩ := of_require valid
  obtain ⟨-, valid⟩ := of_checkUnit valid
  obtain ⟨-, valid⟩ := of_checkUnit valid
  obtain ⟨-, valid⟩ := of_checkUnit valid
  obtain ⟨-, names⟩ := of_checkUnit valid
  simp only [validate, require, concurrency, iterations, topK, checkUnit, sample, delta, cutoff,
    perturbation]
  exact names

end NeighborGraph.Config
