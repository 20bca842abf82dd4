import TradeReentry.HybridId.Basic

/-!
Closed trades as the input of a decision, and the form in which they are decided.

`Context.normalise` brings the directions and reasons of a context to one spelling, derives a
missing generation from the comment of the order, and lists everything that is wrong.
-/

namespace TradeReentry

/-- A closed trade. A generation of zero asks for the one after that in the comment. -/
structure Context where
  tradeId : Text := []
  symbol : Text := []
  direction : Text := "LONG"
  generation : Int := 1
  lotSize : Binary64 := .zero
  profitLossPips : Binary64 := .zero
  durationMinutes : Binary64 := .zero
  tradeClosed : Bool := true
  closeReason : Text := []
  proximityState : Text := "AT_EVENT"
  calendarId : Text := "NONE"
  comment : Text := []
deriving DecidableEq, Repr

namespace Context

/-- Something wrong with a context. -/
inductive Problem where
  | missingTradeId
  | missingSymbol
  | lotSize
  | profitLoss
  | duration
  | vocabulary (fault : Vocabulary.Fault)
  | closeReason (value : Text)
deriving DecidableEq, Repr

def Problem.message : Problem → Text
  | .missingTradeId => "trade_id is required"
  | .missingSymbol => "symbol is required"
  | .lotSize => "current_lot_size must be positive"
  | .profitLoss => "profit_loss_pips must be finite"
  | .duration => "duration_minutes must be non-negative"
  | .vocabulary fault => fault.message
  | .closeReason value => "Invalid close_reason: " ++ value

/-- The problems of a context as one text. -/
def problemsText (problems : List Problem) : Text := Text.join "; " (problems.map (·.message))

/-- The direction in capitals, `BUY` and `SELL` being other words for `LONG` and `SHORT`. -/
def directionOf (direction : Text) : Text :=
  let upper := Text.toUpper direction
  if upper = "BUY" then "LONG" else if upper = "SELL" then "SHORT" else upper

/-- The reasons for which a trade is closed; an empty one is unknown. -/
def closeReasons : List Text := [[], "TP", "SL", "MANUAL", "TIMEOUT"]

/-- The generation after that of the identifier in a comment, at most the last one; the first one
if the comment holds no valid identifier. -/
def generationAfter (v : Vocabulary) (comment : Text) : Int :=
  if HybridId.isValid v comment then
    match HybridId.parse v comment with
    | .ok id => min (id.generation + 1) v.generationMax
    | .error _ => v.generationMin
  else v.generationMin

/-- The context in the spelling in which it is decided. -/
def spelled (v : Vocabulary) (c : Context) : Context :=
  { c with
    direction := directionOf c.direction
    closeReason := Text.toUpper c.closeReason
    calendarId := if c.calendarId.isEmpty then Vocabulary.noCalendar else c.calendarId
    generation := if c.generation = 0 then generationAfter v c.comment else c.generation }

/-- A problem where a condition fails. -/
def require (condition : Bool) (problem : Problem) : List Problem :=
  if condition then [] else [problem]

/-- What is wrong with a context, in the order of its parts; faults of the direction and of the
reason are told in the words of the input. -/
def problems (v : Vocabulary) (c : Context) : List Problem :=
  let s := c.spelled v
  require (!c.tradeId.isEmpty) .missingTradeId ++
    require (!c.symbol.isEmpty) .missingSymbol ++
    require (c.lotSize.isFinite && Binary64.zero < c.lotSize) .lotSize ++
    require c.profitLossPips.isFinite .profitLoss ++
    require (c.durationMinutes.isFinite && Binary64.zero ≤ c.durationMinutes) .duration ++
    require (v.isLegal .direction s.direction) (.vocabulary (.token .direction c.direction)) ++
    require (v.isLegal .proximity c.proximityState)
      (.vocabulary (.token .proximity c.proximityState)) ++
    require (v.isValidCalendar s.calendarId) (.vocabulary (.calendar s.calendarId)) ++
    require (closeReasons.contains s.closeReason) (.closeReason c.closeReason) ++
    require (c.generation = 0 || v.isValidGeneration c.generation)
      (.vocabulary (.generation c.generation))

/-- The context as it is decided, or its problems. -/
def normalise (v : Vocabulary) (c : Context) : Except (List Problem) Context :=
  if c.problems v = [] then .ok (c.spelled v) else .error (c.problems v)

end Context

end TradeReentry
