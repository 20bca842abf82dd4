import TradeReentry.Decision.Sizing
import TradeReentry.Proofs.Binary64.Arithmetic

/-!
# When a proposed lot is finite

A lot is brought to the grid by way of a product with `lotScale`, which is the only place where a
positive lot and multiplier can lose a finite result after the steps were counted: `isFinite_sizeLot_iff`
says exactly when.
-/

namespace TradeReentry.ProcessorSettings

open Binary64

/-- The lot in whole steps, at least one. -/
def steppedLot (s : ProcessorSettings) (symbol : Text) (lot multiplier : Binary64) : Binary64 :=
  let step := s.lotStepOf symbol
  let stepped := (lot * multiplier / step).round * step
  if stepped < step then step else stepped

theorem sizeLot_eq (s : ProcessorSettings) (symbol : Text) (lot multiplier : Binary64) :
    s.sizeLot symbol lot multiplier =
      (s.steppedLot symbol lot multiplier * lotScale).round / lotScale := rfl

theorem isFinite_lotScale : lotScale.isFinite = true := by decide +kernel

theorem units_lotScale : lotScale.units = 100000000 * unitsInOne := by decide +kernel

theorem one_le_lotScale : unitsInOne ≤ lotScale.units := by
  rw [units_lotScale]
  exact Nat.le_mul_of_pos_left _ (by decide)

/-- A lot can be counted in points of the grid up to the overflow. -/
theorem isFinite_mul_lotScale_iff {lots : Binary64} (hfinite : lots.isFinite = true) :
    (lots * lotScale).isFinite = true ↔ lots.units * 100000000 < overflowUnits := by
  rw [isFinite_mul_iff hfinite isFinite_lotScale, units_lotScale, ← Nat.mul_assoc,
    Nat.mul_lt_mul_right unitsInOne_pos]

/-- Whether a lot in whole steps can be brought to the grid: a hundred million times it is below the
middle between the largest finite number and 2^1024. -/
def InRange (s : ProcessorSettings) (symbol : Text) (lot multiplier : Binary64) : Prop :=
  (s.steppedLot symbol lot multiplier).units * 100000000 < overflowUnits

instance (s : ProcessorSettings) (symbol : Text) (lot multiplier : Binary64) :
    Decidable (s.InRange symbol lot multiplier) := inferInstanceAs (Decidable (_ < _))

section Lots

variable {s : ProcessorSettings} {symbol : Text} {lot multiplier : Binary64}
  (hstep : zero < s.lotStepOf symbol) (hfinite : (s.lotStepOf symbol).isFinite = true)
  (hlot : zero < lot)
  (hmultiplier : zero < multiplier) (hmultiplierFinite : multiplier.isFinite = true)

include hstep hfinite hlot hmultiplier hmultiplierFinite

/-- A lot in whole steps is a number without a minus sign. -/
theorem isPlus_steppedLot : (s.steppedLot symbol lot multiplier).IsPlus := by
  obtain ⟨hstep, hstepPos⟩ := zero_lt_iff.1 hstep
  obtain ⟨hmultiplier, hmultiplierPos⟩ := zero_lt_iff.1 hmultiplier
  have hscaled := (zero_lt_iff.1 hlot).1.mul hmultiplier hmultiplierFinite hmultiplierPos
  have hcount := (hscaled.div hstep hfinite hstepPos).round
  have hstepped := hcount.mul hstep hfinite hstepPos
  unfold steppedLot
  dsimp only
  split
  · exact hstep
  · exact hstepped

/-- The proposed lot is finite exactly where the lot in whole steps is in range. -/
theorem isFinite_sizeLot_iff :
    (s.sizeLot symbol lot multiplier).isFinite = true ↔ s.InRange symbol lot multiplier := by
  have hplus := isPlus_steppedLot hstep hfinite hlot hmultiplier hmultiplierFinite
  rw [sizeLot_eq, isFinite_div isFinite_lotScale one_le_lotScale, isFinite_round, InRange]
  generalize s.steppedLot symbol lot multiplier = stepped at *
  cases hstepped : stepped.isFinite with
  | true => exact isFinite_mul_lotScale_iff hstepped
  | false =>
    have hlarge : unitsInInfinity ≤ stepped.units := by
      rw [← Nat.not_lt, units_lt_iff, hstepped]
      exact Bool.false_ne_true
    rw [not_isFinite_mul hstepped]
    refine ⟨fun h => absurd h Bool.false_ne_true, fun h => absurd h (Nat.not_lt.2 ?_)⟩
    exact Nat.le_trans (Nat.le_of_lt (Nat.lt_of_lt_of_le overflowUnits_lt hlarge))
      (Nat.le_mul_of_pos_right _ (by decide))

end Lots

end TradeReentry.ProcessorSettings
