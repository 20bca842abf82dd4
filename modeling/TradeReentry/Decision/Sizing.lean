import TradeReentry.Decision.Response
import TradeReentry.Settings.Basic

/-!
The numbers of a decision: the classes of a trade, the proposed lot and the confidence.
-/

namespace TradeReentry.ProcessorSettings

/-- A trade that reaches the profit threshold is a win, one at or below the loss threshold a loss. -/
def classifyOutcome (s : ProcessorSettings) (pips : Binary64) : OutcomeClass :=
  if s.profitThresholdPips ≤ pips then .win
  else if pips ≤ s.lossThresholdPips then .loss
  else .breakeven

/-- The first class whose limit a duration does not exceed. -/
def classifyDuration (s : ProcessorSettings) (minutes : Binary64) : DurationClass :=
  if minutes ≤ s.flashMaxMinutes then .flash
  else if minutes ≤ s.quickMaxMinutes then .quick
  else if minutes ≤ s.longMaxMinutes then .long
  else .extended

/-- The lot step of a symbol. -/
def lotStepOf (s : ProcessorSettings) (symbol : Text) : Binary64 :=
  (s.lotSteps.find? symbol).getD s.lotStep

/-- The grid of proposed lots has this many points in one. -/
def lotScale : Binary64 := .ofNat 100000000

/-- The proposed lot: the scaled lot to the nearest whole number of steps, but at least one, and
then to the nearest point of the grid. -/
def sizeLot (s : ProcessorSettings) (symbol : Text) (lot multiplier : Binary64) : Binary64 :=
  let step := s.lotStepOf symbol
  let stepped := (lot * multiplier / step).round * step
  let lots := if stepped < step then step else stepped
  (lots * lotScale).round / lotScale

/-- The confidence in a decision, between zero and one: the threshold of its parameters, more for
specific ones and for a win, less for a loss and for each generation after the first. -/
def scoreConfidence (s : ProcessorSettings) (threshold specificity : Binary64)
    (outcome : OutcomeClass) (generation : Int) : Binary64 :=
  let base := threshold + s.specificityWeight * specificity
  let adjusted := match outcome with
    | .win => base + s.winBonus
    | .loss => base - s.lossPenalty
    | .breakeven => base
  let penalty := s.generationPenalty * .ofInt (max (generation - 1) 0)
  (adjusted - penalty).clamp .zero .one

end TradeReentry.ProcessorSettings
