import TradeReentry.Decimal.Fixed
import TradeReentry.Json.Value
import TradeReentry.Ledger.Row

/-!
The answer to a closed trade, its JSON form and its row in the ledger.
-/

namespace TradeReentry

/-- The outcome of a trade. -/
inductive OutcomeClass where
  | win
  | loss
  | breakeven
deriving DecidableEq, Repr

def OutcomeClass.name : OutcomeClass → Text
  | .win => "WIN"
  | .loss => "LOSS"
  | .breakeven => "BREAKEVEN"

/-- The token of an outcome in an identifier. Only the first rank of wins and losses is told apart. -/
def OutcomeClass.token : OutcomeClass → Text
  | .win => "W1"
  | .loss => "L1"
  | .breakeven => "BE"

/-- How long a trade was held. -/
inductive DurationClass where
  | flash
  | quick
  | long
  | extended
deriving DecidableEq, Repr

def DurationClass.name : DurationClass → Text
  | .flash => "FLASH"
  | .quick => "QUICK"
  | .long => "LONG"
  | .extended => "EXTENDED"

/-- What follows a closed trade: the first or second re-entry, a later generation that is held back,
or none. -/
inductive ReentryAction where
  | r1
  | r2
  | hold
  | noReentry
deriving DecidableEq, Repr

namespace ReentryAction

def name : ReentryAction → Text
  | r1 => "R1"
  | r2 => "R2"
  | hold => "HOLD"
  | noReentry => "NO_REENTRY"

/-- Whether an action uses up one of the day's attempts. -/
def countsAsAttempt (action : ReentryAction) : Bool := action = r1 || action = r2

/-- The action that leads to a generation. -/
def into (generation : Int) : ReentryAction :=
  if generation = 2 then r1 else if generation = 3 then r2 else hold

end ReentryAction

/-- What became of a context. -/
inductive DecisionStatus where
  | processed
  | skipped
  | invalidContext
  | writeFailure
deriving DecidableEq, Repr

def DecisionStatus.name : DecisionStatus → Text
  | .processed => "processed"
  | .skipped => "skipped"
  | .invalidContext => "invalid_context"
  | .writeFailure => "write_failure"

/-- The answer to a context. Unless it was processed, only the reason and the names of the trade
are meaningful; a processed one with a reason was not recorded. -/
structure Response where
  status : DecisionStatus := .invalidContext
  reason : Text := []
  tradeId : Text := []
  symbol : Text := []
  hybridId : Text := []
  comment : Text := []
  outcomeClass : OutcomeClass := .breakeven
  durationClass : DurationClass := .quick
  action : ReentryAction := .noReentry
  parameterSetId : Text := []
  resolvedTier : Text := []
  chainPosition : Text := []
  generation : Int := 1
  nextGeneration? : Option Int := none
  lotSize : Binary64 := .zero
  stopLoss : Binary64 := .zero
  takeProfit : Binary64 := .zero
  confidence : Binary64 := .zero
  sequence : UInt64 := 0
  checksum : Text := []
deriving DecidableEq, Repr

namespace Response

/-- The places of a confidence. -/
def confidencePlaces : Nat := 6

/-- A member of a JSON object, its key and the text of its value. -/
def member (key value : Text) : Text := Json.quote key ++ ":" ++ value

/-- The members of the JSON form, in order. -/
def members (r : Response) : List Text :=
  let status := member "status" (Json.quote r.status.name)
  let reason := member "reason" (Json.quote r.reason)
  let names := [member "trade_id" (Json.quote r.tradeId), member "symbol" (Json.quote r.symbol)]
  if r.status ≠ .processed then status :: reason :: names
  else
    status :: (if r.reason.isEmpty then [] else [reason]) ++ names ++ [
      member "identifier" (Json.quote r.hybridId),
      member "comment" (Json.quote r.comment),
      member "outcome_class" (Json.quote r.outcomeClass.name),
      member "duration_class" (Json.quote r.durationClass.name),
      member "reentry_action" (Json.quote r.action.name),
      member "parameter_set_id" (Json.quote r.parameterSetId),
      member "resolved_tier" (Json.quote r.resolvedTier),
      member "chain_position" (Json.quote r.chainPosition),
      member "generation" (Text.ofInt r.generation),
      member "next_generation" (r.nextGeneration?.elim "null" Text.ofInt),
      member "lot_size" r.lotSize.cellText,
      member "stop_loss" r.stopLoss.cellText,
      member "take_profit" r.takeProfit.cellText,
      member "confidence_score" (r.confidence.decimalText confidencePlaces),
      member "file_seq" (Text.ofNat r.sequence.toNat),
      member "checksum" (Json.quote r.checksum)]

/-- The JSON form. -/
def toJson (r : Response) : Text :=
  Ascii.openBrace :: Text.join "," r.members ++ [Ascii.closeBrace]

/-- The business columns of the row that records a response. -/
def toRow (r : Response) : Row := .ofList [
  ("trade_id", r.tradeId), ("hybrid_id", r.hybridId), ("symbol", r.symbol),
  ("outcome_class", r.outcomeClass.name), ("duration_class", r.durationClass.name),
  ("reentry_action", r.action.name), ("parameter_set_id", r.parameterSetId),
  ("resolved_tier", r.resolvedTier), ("chain_position", r.chainPosition),
  ("lot_size", r.lotSize.cellText), ("stop_loss", r.stopLoss.cellText),
  ("take_profit", r.takeProfit.cellText)]

end Response

end TradeReentry
