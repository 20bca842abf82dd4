import TradeReentry.Proofs.Decision.Audits
import TradeReentry.Proofs.Decision.Grid

/-!
# How near a proposed lot is to whole steps

A proposed lot is half a point of the grid away from a positive number of whole steps at most, but for the
rounding of numbers. It is brought to the grid after the lower limit of one step was applied, and so it can end
up below the step, or at zero: never, exactly if the step itself is not brought below itself, or to zero
(`legalLots_of_check`).
-/

namespace TradeReentry.ProcessorSettings

open Binary64 ParameterSet

/-! ## Whole steps -/

/-- A whole number of steps that is not below one step. -/
theorem exists_count {quotient step : Binary64} (hquotient : quotient.IsPlus) (hstep : IsAmount step)
    (hreaches : ¬quotient.round * step < step) (hfinite : (quotient.round * step).isFinite = true) :
    ∃ n : Nat, 1 ≤ n ∧ |(quotient.round * step).toRat - n * step.toRat| ≤ n * step.toRat / 2 ^ 53 := by
  obtain ⟨hplus, hpos⟩ := zero_lt_iff.1 hstep.1
  have hcountFinite : quotient.round.isFinite = true := by
    cases h : quotient.round.isFinite with
    | true => rfl
    | false =>
      rw [not_isFinite_mul h] at hfinite
      exact hfinite
  obtain ⟨n, hn, -⟩ := hquotient.exists_round_eq ((isFinite_round quotient).symm.trans hcountFinite)
  have hdvd : unitsInOne ∣ quotient.round.units * step.units := by
    rw [hn]
    exact Nat.dvd_mul_right_of_dvd (Nat.dvd_mul_left _ _) _
  have herror := hquotient.round.abs_mul_sub_le hcountFinite hplus hstep.2 hfinite (.inl hdvd)
  rw [hquotient.round.toRat_of_units_eq hn] at herror
  refine ⟨n, Nat.pos_of_ne_zero ?_, herror⟩
  -- no step at all is below one step
  rintro rfl
  refine hreaches (((hquotient.round.mul hplus hstep.2 hpos).lt_iff hplus).2 ?_)
  rw [units_mul hcountFinite hstep.2, hn, Nat.zero_mul, Nat.zero_mul, nearestUnits_zero, Nat.zero_min]
  exact hpos

section Steps

variable {s : ProcessorSettings} {symbol : Text} {lot multiplier : Binary64}
  (hstep : IsAmount (s.lotStepOf symbol)) (hlot : IsAmount lot) (hmultiplier : IsAmount multiplier)

include hstep hlot hmultiplier

/-- A lot in whole steps is one step, or a count of steps that is not below one. -/
theorem steppedLot_cases :
    s.steppedLot symbol lot multiplier = s.lotStepOf symbol ∨
      ∃ quotient : Binary64, quotient.IsPlus ∧ ¬quotient.round * s.lotStepOf symbol < s.lotStepOf symbol ∧
        s.steppedLot symbol lot multiplier = quotient.round * s.lotStepOf symbol := by
  obtain ⟨hplus, hpos⟩ := zero_lt_iff.1 hstep.1
  obtain ⟨hmultiplierPlus, hmultiplierPos⟩ := zero_lt_iff.1 hmultiplier.1
  have hscaled := (zero_lt_iff.1 hlot.1).1.mul hmultiplierPlus hmultiplier.2 hmultiplierPos
  simp only [steppedLot]
  split
  · exact .inl rfl
  · next hreaches => exact .inr ⟨_, hscaled.div hplus hstep.2 hpos, hreaches, rfl⟩

/-- A lot in whole steps is not below one step. -/
theorem units_le_steppedLot : (s.lotStepOf symbol).units ≤ (s.steppedLot symbol lot multiplier).units := by
  obtain ⟨hplus, hpos⟩ := zero_lt_iff.1 hstep.1
  obtain hone | ⟨quotient, hquotient, hreaches, hcount⟩ := steppedLot_cases hstep hlot hmultiplier
  · rw [hone]
  · rw [(hquotient.round.mul hplus hstep.2 hpos).lt_iff hplus] at hreaches
    rw [hcount]
    exact Nat.not_lt.1 hreaches

/-- A lot in whole steps is a positive number of them, but for the rounding of numbers. -/
theorem exists_steps (hfinite : (s.steppedLot symbol lot multiplier).isFinite = true) :
    ∃ n : Nat, 1 ≤ n ∧
      |(s.steppedLot symbol lot multiplier).toRat - n * (s.lotStepOf symbol).toRat| ≤
        n * (s.lotStepOf symbol).toRat / 2 ^ 53 := by
  obtain hone | ⟨quotient, hquotient, hreaches, hcount⟩ := steppedLot_cases hstep hlot hmultiplier
  · refine ⟨1, Nat.le_refl 1, ?_⟩
    rw [hone, Nat.cast_one, one_mul, sub_self, abs_zero]
    exact div_nonneg (zero_lt_iff.1 hstep.1).1.toRat_nonneg (by norm_num)
  · rw [hcount] at hfinite ⊢
    exact exists_count hquotient hstep hreaches hfinite

/-- A proposed lot is half a point of the grid away from a positive number of steps at most, but for the rounding
of numbers. -/
theorem exists_near_steps (hrange : s.InRange symbol lot multiplier) :
    ∃ n : Nat, 1 ≤ n ∧
      |(s.sizeLot symbol lot multiplier).toRat - n * (s.lotStepOf symbol).toRat| ≤
        1 / (2 * 10 ^ 8) + n * (s.lotStepOf symbol).toRat / 2 ^ 50 := by
  have hplus := isPlus_steppedLot hstep.1 hstep.2 hlot.1 hmultiplier.1 hmultiplier.2
  have hfinite : (s.steppedLot symbol lot multiplier).isFinite = true := by
    refine units_lt_iff.1 (Nat.lt_trans (Nat.lt_of_le_of_lt ?_ hrange) overflowUnits_lt)
    exact Nat.le_mul_of_pos_right _ (by decide)
  have hproduct := (isFinite_mul_lotScale_iff hfinite).2 hrange
  obtain ⟨n, hn, hsteps⟩ := exists_steps hstep hlot hmultiplier hfinite
  have hgrid := abs_toGrid_sub_le hplus hfinite hproduct
  refine ⟨n, hn, ?_⟩
  have hnonneg : 0 ≤ (n : ℚ) * (s.lotStepOf symbol).toRat :=
    mul_nonneg (Nat.cast_nonneg n) (zero_lt_iff.1 hstep.1).1.toRat_nonneg
  rw [sizeLot_eq, ← toGrid]
  generalize (toGrid (s.steppedLot symbol lot multiplier)).toRat = point at hgrid ⊢
  generalize (s.steppedLot symbol lot multiplier).toRat = stepped at hgrid hsteps
  generalize (n : ℚ) * (s.lotStepOf symbol).toRat = exact at hsteps hnonneg ⊢
  rw [abs_le] at *
  constructor <;> linarith

/-- A proposed lot is not below the point of the grid that one step is brought to. -/
theorem toGrid_le_sizeLot :
    (toGrid (s.lotStepOf symbol)).units ≤ (s.sizeLot symbol lot multiplier).units :=
  toGrid_mono (zero_lt_iff.1 hstep.1).1 (isPlus_steppedLot hstep.1 hstep.2 hlot.1 hmultiplier.1 hmultiplier.2)
    (units_le_steppedLot hstep hlot hmultiplier)

end Steps

/-- One step is brought to the grid as it is. -/
theorem sizeLot_step {s : ProcessorSettings} {symbol : Text} (hstep : IsAmount (s.lotStepOf symbol)) :
    s.sizeLot symbol (s.lotStepOf symbol) one = toGrid (s.lotStepOf symbol) := by
  obtain ⟨hplus, hpos⟩ := zero_lt_iff.1 hstep.1
  have hround : one.round = one := by decide +kernel
  have hirrefl : ¬s.lotStepOf symbol < s.lotStepOf symbol := fun h => Nat.lt_irrefl _ ((hplus.lt_iff hplus).1 h)
  rw [sizeLot_eq, steppedLot, toGrid]
  simp only [mul_one_eq hplus hstep.2, div_self_eq hstep.2 hpos, hround, one_mul_eq hplus hstep.2, hirrefl,
    if_false]

/-- The least of all proposed lots is the point that one step is brought to. -/
theorem forall_le_units_sizeLot_iff {s : ProcessorSettings} {symbol : Text}
    (hstep : IsAmount (s.lotStepOf symbol)) (least : Nat) :
    (∀ lot multiplier, IsAmount lot → IsAmount multiplier → least ≤ (s.sizeLot symbol lot multiplier).units) ↔
      least ≤ (toGrid (s.lotStepOf symbol)).units := by
  constructor
  · intro h
    have hone : IsAmount one := ⟨by decide +kernel, by decide +kernel⟩
    rw [← sizeLot_step hstep]
    exact h _ _ hstep hone
  · intro h lot multiplier hlot hmultiplier
    exact Nat.le_trans h (toGrid_le_sizeLot hstep hlot hmultiplier)

/-! ## Legal lots -/

/-- The lots that settings which were checked propose for a symbol with a finite step. They are half a point of the
grid away from a positive number of steps at most, but for the rounding of numbers. None is below the step
exactly if the step is not brought below itself, which holds of all decimals with eight places up to 2^50
points; and none is zero exactly if the step counts half a point. -/
theorem legalLots_of_check {settings : Settings} (hcheck : settings.check = .ok ()) {symbol : Text}
    (hfinite : (settings.processor.lotStepOf symbol).isFinite = true) :
    (∀ lot multiplier, IsAmount lot → IsAmount multiplier → settings.processor.InRange symbol lot multiplier →
        ∃ n : Nat, 1 ≤ n ∧
          |(settings.processor.sizeLot symbol lot multiplier).toRat -
              n * (settings.processor.lotStepOf symbol).toRat| ≤
            1 / (2 * 10 ^ 8) + n * (settings.processor.lotStepOf symbol).toRat / 2 ^ 50) ∧
      ((∀ lot multiplier, IsAmount lot → IsAmount multiplier →
          settings.processor.lotStepOf symbol ≤ settings.processor.sizeLot symbol lot multiplier) ↔
        settings.processor.lotStepOf symbol ≤ toGrid (settings.processor.lotStepOf symbol)) ∧
      (∀ k, 0 < k → k ≤ 2 ^ 50 → settings.processor.lotStepOf symbol = ofDecimal k 8 →
        toGrid (settings.processor.lotStepOf symbol) = settings.processor.lotStepOf symbol) ∧
      ((∀ lot multiplier, IsAmount lot → IsAmount multiplier →
          zero < settings.processor.sizeLot symbol lot multiplier) ↔
        1 / 2 - 1 / 2 ^ 55 ≤ (settings.processor.lotStepOf symbol).toRat * 10 ^ 8) := by
  have hstep : IsAmount (settings.processor.lotStepOf symbol) :=
    ⟨Settings.zero_lt_lotStepOf hcheck hfinite, hfinite⟩
  have hplus := (zero_lt_iff.1 hstep.1).1
  have hsizeLot : ∀ {lot multiplier}, IsAmount lot → IsAmount multiplier →
      (settings.processor.sizeLot symbol lot multiplier).IsPlus := fun hlot hmultiplier =>
    isPlus_toGrid (isPlus_steppedLot hstep.1 hstep.2 hlot.1 hmultiplier.1 hmultiplier.2)
  refine ⟨fun lot multiplier hlot hmultiplier => exists_near_steps hstep hlot hmultiplier, ?_, ?_, ?_⟩
  · rw [hplus.le_iff (isPlus_toGrid hplus), ← forall_le_units_sizeLot_iff hstep]
    exact forall₄_congr fun lot multiplier hlot hmultiplier => hplus.le_iff (hsizeLot hlot hmultiplier)
  · intro k hpos hk hdecimal
    rw [hdecimal]
    exact toGrid_point hpos hk
  · rw [← toGrid_pos_iff hplus hfinite, ← Nat.succ_le_iff, ← forall_le_units_sizeLot_iff hstep]
    exact forall₄_congr fun lot multiplier hlot hmultiplier =>
      zero_lt_iff.trans (and_iff_right (hsizeLot hlot hmultiplier))

/-- The settings that a program starts with have a step of a million points. -/
theorem legalLots_of_check_defaults :
    let settings : Settings := {}
    let lot : Binary64 := ofDecimal 1 1
    let multiplier : Binary64 := ofDecimal 12 1
    (∃ n : Nat, 1 ≤ n ∧
      |(settings.processor.sizeLot "EURUSD" lot multiplier).toRat -
          n * (settings.processor.lotStepOf "EURUSD").toRat| ≤
        1 / (2 * 10 ^ 8) + n * (settings.processor.lotStepOf "EURUSD").toRat / 2 ^ 50) ∧
      settings.processor.lotStepOf "EURUSD" ≤ settings.processor.sizeLot "EURUSD" lot multiplier := by
  intro settings lot multiplier
  have hlot : IsAmount lot := ⟨by decide +kernel, by decide +kernel⟩
  have hmultiplier : IsAmount multiplier := ⟨by decide +kernel, by decide +kernel⟩
  have hstep : settings.processor.lotStepOf "EURUSD" = ofDecimal 1000000 8 := by decide +kernel
  have hcheck : settings.check = .ok () := by decide +kernel
  obtain ⟨hnear, hleast, hpoints, -⟩ := legalLots_of_check hcheck
    (show (settings.processor.lotStepOf "EURUSD").isFinite = true by decide +kernel)
  refine ⟨hnear lot multiplier hlot hmultiplier (by decide +kernel), ?_⟩
  refine hleast.2 ?_ lot multiplier hlot hmultiplier
  rw [hpoints 1000000 (by decide) (by decide) hstep]
  decide +kernel

/-- Of a step that is no decimal with eight places the least lot may be less, and of one below half a point it is
zero. -/
example :
    let sizeOneStep (step : Binary64) : Binary64 :=
      sizeLot { lotStep := step } "EURUSD" step one
    sizeOneStep (ofDecimal 14 9) = ofDecimal 1 8 ∧ sizeOneStep (ofDecimal 4 9) = zero := by decide +kernel

end TradeReentry.ProcessorSettings
