import TradeReentry.Binary64.Basic
import TradeReentry.Settings.Basic
import TradeReentry.Vocabulary.Basic

/-!
Parameter sets: which trades they apply to, and the values that they give to a decision.

A predicate that is left out holds of every trade. `ParameterSet.matchOf?` counts the predicates of a
set and says whether it applies and how specific it is; `ParameterSet.checkAll` accepts lists whose
sets are well-formed and have different names.
-/

namespace TradeReentry

structure ParameterSet where
  id : Text := []
  name : Text := []
  tier : Text := []
  /-- `WIN`, `LOSS` or `BREAKEVEN`. -/
  outcomeClass? : Option Text := none
  durationClass? : Option Text := none
  proximityState? : Option Text := none
  calendarPattern? : Option Text := none
  symbolPattern? : Option Text := none
  reentryEnabled : Bool := true
  maxGeneration : Int := 3
  lotSizeMultiplier : Binary64 := .one
  stopLossPips : Binary64 := .ofNat 20
  takeProfitPips : Binary64 := .ofNat 40
  confidenceThreshold : Binary64 := .ofDecimal 6 1
  minWaitMinutes : Int := 0
  maxWaitMinutes : Int := 60
  /-- Passed on to whoever acts on a decision; no matching depends on it. -/
  volatilityThreshold? : Option Binary64 := none
  spreadThreshold? : Option Binary64 := none
  active : Bool := true
deriving DecidableEq, Repr, Inhabited

/-- The facts of a trade that parameter sets look at. -/
structure Criteria where
  outcome : Text
  duration : Text
  proximity : Text
  calendar : Text
  symbol : Text
deriving DecidableEq, Repr

namespace ParameterSet

/-! ## Matching -/

/-- The predicates of a set that were looked at: how many are stated and how many of those hold. -/
structure Score where
  declared : Nat := 0
  matched : Nat := 0
deriving DecidableEq, Repr

/-- Looks at an optional predicate; one that does not hold ends the search. -/
def Score.look (test : Text → Text → Bool) (predicate? : Option Text) (value : Text)
    (score : Score) : Option Score :=
  match predicate? with
  | none => some score
  | some predicate =>
    if test predicate value then some ⟨score.declared + 1, score.matched + 1⟩ else none

/-- The share of the stated predicates that hold; zero if none is stated. -/
def Score.specificity (score : Score) : Binary64 :=
  if score.declared = 0 then .zero else .ofNat score.matched / .ofNat score.declared

/-- How a set applies to a trade. -/
structure Match where
  specificity : Binary64
  declaredCount : Nat
deriving DecidableEq, Repr

/-- Whether an active set applies to a trade, and how. -/
def matchOf? (set : ParameterSet) (criteria : Criteria) : Option Match :=
  if !set.active then none
  else do
    let score ← Score.look (· == ·) set.outcomeClass? criteria.outcome {}
    let score ← score.look (· == ·) set.durationClass? criteria.duration
    let score ← score.look (· == ·) set.proximityState? criteria.proximity
    let score ← score.look Pattern.isMatch set.calendarPattern? criteria.calendar
    let score ← score.look Pattern.isMatch set.symbolPattern? criteria.symbol
    return ⟨score.specificity, score.declared⟩

/-! ## The built-in sets -/

def globalDefault : ParameterSet where
  id := "global_default"
  name := "Global Default Parameters"
  tier := "GLOBAL"

def highImpact : ParameterSet where
  id := "cal8_high_impact"
  name := "CAL8 High Impact Events"
  tier := "TIER1"
  calendarPattern? := some "CAL8_*"
  lotSizeMultiplier := .ofDecimal 8 1
  stopLossPips := .ofNat 15
  takeProfitPips := .ofNat 30
  confidenceThreshold := .ofDecimal 7 1

def winOutcomes : ParameterSet where
  id := "win_outcomes"
  name := "Win Outcome Re-entries"
  tier := "TIER2"
  outcomeClass? := some "WIN"
  lotSizeMultiplier := .ofDecimal 12 1
  stopLossPips := .ofNat 25
  takeProfitPips := .ofNat 50
  confidenceThreshold := .ofDecimal 5 1

def lossOutcomes : ParameterSet where
  id := "loss_outcomes"
  name := "Loss Outcome Re-entries"
  tier := "TIER2"
  outcomeClass? := some "LOSS"
  lotSizeMultiplier := .ofDecimal 7 1
  stopLossPips := .ofNat 15
  takeProfitPips := .ofNat 30
  confidenceThreshold := .ofDecimal 8 1

def flashNoReentry : ParameterSet where
  id := "flash_no_reentry"
  name := "Flash Duration - No Re-entry"
  tier := "TIER3"
  durationClass? := some "FLASH"
  reentryEnabled := false
  confidenceThreshold := .one

/-- The sets that stand in for a missing file. -/
def defaults : List ParameterSet :=
  [globalDefault, highImpact, winOutcomes, lossOutcomes, flashNoReentry]

/-! ## Rules -/

/-- A rule that a set breaks. -/
inductive RuleError where
  | emptyId
  | unknownTier (tier : Text)
  | outcomeToken (value : Text)
  | outcomeClass (value : Text)
  | durationClass (value : Text)
  | proximityState (value : Text)
  | calendarPattern (pattern : Text) (error : Pattern.PatternError)
  | symbolPattern (pattern : Text) (error : Pattern.PatternError)
  | maxGeneration (value : Int)
  | notPositive
  | confidence
  | waitOrder
  | negativeThreshold
  | repeatedId
deriving DecidableEq, Repr

def RuleError.reason : RuleError → Text
  | .emptyId => "id 不能为空"
  | .unknownTier tier => "tier 不在层级列表中: " ++ tier
  | .outcomeToken value => "outcome_class 须为 WIN/LOSS/BREAKEVEN，不接受词表 token: " ++ value
  | .outcomeClass value => "outcome_class 非法: " ++ value
  | .durationClass value => "duration_class 非法: " ++ value
  | .proximityState value => "proximity_state 非法: " ++ value
  | .calendarPattern pattern error => "calendar_pattern " ++ error.message pattern
  | .symbolPattern pattern error => "symbol_pattern " ++ error.message pattern
  | .maxGeneration value => "max_generation 超出词表区间: " ++ Text.ofInt value
  | .notPositive => "lot_size_multiplier/stop_loss_pips/take_profit_pips 必须 > 0"
  | .confidence => "confidence_threshold 必须位于 [0, 1]"
  | .waitOrder => "必须满足 0 <= min_wait_minutes <= max_wait_minutes"
  | .negativeThreshold => "volatility_threshold/spread_threshold 不能为负"
  | .repeatedId => "id 重复"

/-- The wording of a fault of a set. -/
def faultMessage (id reason : Text) : Text :=
  "参数集 " ++ (if id.isEmpty then ("<unnamed>" : Text) else id) ++ ": " ++ reason

/-- A set by its name and the rule that it breaks. -/
structure Fault where
  id : Text
  error : RuleError
deriving DecidableEq, Repr

def Fault.message (fault : Fault) : Text := faultMessage fault.id fault.error.reason

def outcomeClasses : List Text := ["WIN", "LOSS", "BREAKEVEN"]

/-- Fails with an error if a condition holds. -/
def refuseIf (condition : Prop) [Decidable condition] (error : RuleError) :
    Except RuleError Unit :=
  if condition then .error error else .ok ()

/-- Refuses an outcome that is no class; a token of the vocabulary is refused in words of its own. -/
def checkOutcome (v : Vocabulary) : Option Text → Except RuleError Unit
  | none => .ok ()
  | some value =>
    if outcomeClasses.contains value then .ok ()
    else if v.isLegal .outcome value then .error (.outcomeToken value)
    else .error (.outcomeClass value)

/-- Refuses a value that is no token of a dimension. -/
def checkToken (v : Vocabulary) (dimension : Vocabulary.Dimension) (error : Text → RuleError) :
    Option Text → Except RuleError Unit
  | none => .ok ()
  | some value => if v.isLegal dimension value then .ok () else .error (error value)

/-- Refuses an ill-formed pattern. -/
def checkPattern (error : Text → Pattern.PatternError → RuleError) :
    Option Text → Except RuleError Unit
  | none => .ok ()
  | some pattern =>
    match Pattern.check pattern with
    | .error e => .error (error pattern e)
    | .ok () => .ok ()

/-- Whether an optional number is below zero. -/
def isBelowZero (x? : Option Binary64) : Bool := x?.any (decide <| · < Binary64.zero)

/-- The first rule that a set breaks, if any. -/
def check (v : Vocabulary) (tiers : List Text) (set : ParameterSet) : Except RuleError Unit := do
  refuseIf (set.id = []) .emptyId
  refuseIf (set.tier ∉ tiers) (.unknownTier set.tier)
  checkOutcome v set.outcomeClass?
  checkToken v .duration .durationClass set.durationClass?
  checkToken v .proximity .proximityState set.proximityState?
  checkPattern .calendarPattern set.calendarPattern?
  checkPattern .symbolPattern set.symbolPattern?
  refuseIf (v.isValidGeneration set.maxGeneration = false) (.maxGeneration set.maxGeneration)
  refuseIf (set.lotSizeMultiplier ≤ .zero ∨ set.stopLossPips ≤ .zero ∨ set.takeProfitPips ≤ .zero)
    .notPositive
  refuseIf (set.confidenceThreshold < .zero ∨ .one < set.confidenceThreshold) .confidence
  refuseIf (set.minWaitMinutes < 0 ∨ set.maxWaitMinutes < set.minWaitMinutes) .waitOrder
  refuseIf (isBelowZero set.volatilityThreshold? ∨ isBelowZero set.spreadThreshold?)
    .negativeThreshold

/-- Checks sets in order, given the names of those before them. -/
def checkFrom (v : Vocabulary) (tiers : List Text) (seen : List Text) :
    List ParameterSet → Except Fault Unit
  | [] => .ok ()
  | set :: rest =>
    match set.check v tiers with
    | .error error => .error ⟨set.id, error⟩
    | .ok () =>
      if seen.contains set.id then .error ⟨set.id, .repeatedId⟩
      else checkFrom v tiers (set.id :: seen) rest

/-- The first fault of a list of sets, if any. -/
def checkAll (v : Vocabulary) (tiers : List Text) (sets : List ParameterSet) : Except Fault Unit :=
  checkFrom v tiers [] sets

end ParameterSet

end TradeReentry
