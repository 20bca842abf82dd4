import TradeReentry.Binary64.Basic
import TradeReentry.Text.NameMap

/-!
The settings of the program, section by section, and the rules that they have to keep.

`Settings.check` looks at the rules in a fixed order and names the first that is broken. A rule is
broken when a comparison says so; a comparison with a NaN never does.
-/

namespace TradeReentry

/-- Where the vocabulary comes from; an empty file name stands for the built-in one. -/
structure VocabularySettings where
  file : Text := []
  requireFile : Bool := false
deriving DecidableEq, Repr

structure ResolverSettings where
  parameterSetsFile : Text := "./config/parameter_sets.json"
  /-- The tiers, the first of which has precedence. -/
  tierHierarchy : List Text := ["EXACT", "TIER1", "TIER2", "TIER3", "GLOBAL"]
  useDefaultsIfMissing : Bool := true
deriving DecidableEq, Repr

structure ProcessorSettings where
  completedTradesOnly : Bool := true
  minTradeDurationMinutes : Binary64 := .ofNat 1
  excludeManualCloses : Bool := false
  cooldownMinutes : Int := 15
  maxAttemptsPerDay : Int := 5
  profitThresholdPips : Binary64 := .ofNat 5
  lossThresholdPips : Binary64 := .ofInt (-5)
  flashMaxMinutes : Binary64 := .ofNat 5
  quickMaxMinutes : Binary64 := .ofNat 30
  longMaxMinutes : Binary64 := .ofNat 240
  lotStep : Binary64 := .ofDecimal 1 2
  /-- The lot steps of single symbols. -/
  lotSteps : NameMap Binary64 := .empty
  specificityWeight : Binary64 := .ofDecimal 2 1
  winBonus : Binary64 := .ofDecimal 1 1
  lossPenalty : Binary64 := .ofDecimal 1 1
  generationPenalty : Binary64 := .ofDecimal 5 2
  recentCapacity : Int := 100
deriving DecidableEq, Repr

structure LedgerSettings where
  enabled : Bool := true
  outputDirectory : Text := "./data/reentry"
  rotationHours : Int := 24
  maxFileSizeMb : Int := 100
deriving DecidableEq, Repr

structure ServiceSettings where
  name : Text := "reentry-core"
  workerThreads : Int := 2
deriving DecidableEq, Repr

structure Settings where
  vocabulary : VocabularySettings := {}
  resolver : ResolverSettings := {}
  processor : ProcessorSettings := {}
  ledger : LedgerSettings := {}
  service : ServiceSettings := {}
deriving DecidableEq, Repr

/-- The tier of a decision that no parameter set applies to; no hierarchy holds it. -/
def emergencyTier : Text := "EMERGENCY"

namespace Settings

/-- A rule that settings break. -/
inductive RuleError where
  | noTiers
  | reservedTier
  | repeatedTier (tier : Text)
  | negativeMinDuration
  | negativeCooldown
  | negativeAttempts
  | profitBelowLoss
  | durationOrder
  | lotStep
  | symbolLotStep (symbol : Text)
  | negativeConfidence
  | recentCapacity
  | outputDirectory
  | rotationHours
  | maxFileSize
  | workerThreads
  | missingVocabularyFile
deriving DecidableEq, Repr

def RuleError.message : RuleError → Text
  | .noTiers => "resolver.tier_hierarchy 不能为空"
  | .reservedTier => "resolver.tier_hierarchy 不能包含保留层级 EMERGENCY"
  | .repeatedTier tier => "resolver.tier_hierarchy 存在重复层级: " ++ tier
  | .negativeMinDuration => "processor.min_trade_duration_minutes 不能为负数"
  | .negativeCooldown => "processor.reentry_cooldown_minutes 不能为负数"
  | .negativeAttempts => "processor.max_reentry_attempts_per_day 不能为负数"
  | .profitBelowLoss => "processor.profit_threshold_pips 不能小于 loss_threshold_pips"
  | .durationOrder => "processor 时长阈值必须满足 0 <= flash < quick < long"
  | .lotStep => "processor.lot_step 必须大于 0"
  | .symbolLotStep symbol => "processor.lot_steps." ++ symbol ++ " 必须大于 0"
  | .negativeConfidence => "processor confidence 调整参数不能为负数"
  | .recentCapacity => "processor.recent_decisions_capacity 必须大于 0"
  | .outputDirectory => "ledger.output_directory 不能为空"
  | .rotationHours => "ledger.rotation_hours 必须大于 0"
  | .maxFileSize => "ledger.max_file_size_mb 必须大于 0"
  | .workerThreads => "service.worker_threads 必须至少为 1"
  | .missingVocabularyFile => "vocabulary.require_file=true 时 vocabulary.file 不能为空"

/-- Refuses the reserved tier and any tier that stood before. -/
def checkTiers (seen : List Text) : List Text → Except RuleError Unit
  | [] => .ok ()
  | tier :: rest =>
    if tier = emergencyTier then .error .reservedTier
    else if seen.contains tier then .error (.repeatedTier tier)
    else checkTiers (tier :: seen) rest

/-- Refuses the first symbol whose lot step is not above zero. -/
def checkLotSteps : List (Text × Binary64) → Except RuleError Unit
  | [] => .ok ()
  | (symbol, step) :: rest =>
    if step ≤ .zero then .error (.symbolLotStep symbol) else checkLotSteps rest

/-- Fails with an error if a condition holds. -/
def refuseIf (condition : Prop) [Decidable condition] (error : RuleError) :
    Except RuleError Unit :=
  if condition then .error error else .ok ()

def checkProcessor (p : ProcessorSettings) : Except RuleError Unit := do
  refuseIf (p.minTradeDurationMinutes < .zero) .negativeMinDuration
  refuseIf (p.cooldownMinutes < 0) .negativeCooldown
  refuseIf (p.maxAttemptsPerDay < 0) .negativeAttempts
  refuseIf (p.profitThresholdPips < p.lossThresholdPips) .profitBelowLoss
  refuseIf (p.flashMaxMinutes < .zero ∨ p.quickMaxMinutes ≤ p.flashMaxMinutes ∨
    p.longMaxMinutes ≤ p.quickMaxMinutes) .durationOrder
  refuseIf (p.lotStep ≤ .zero) .lotStep
  checkLotSteps p.lotSteps.entries
  refuseIf (p.specificityWeight < .zero ∨ p.winBonus < .zero ∨ p.lossPenalty < .zero ∨
    p.generationPenalty < .zero) .negativeConfidence
  refuseIf (p.recentCapacity ≤ 0) .recentCapacity

/-- The first rule that settings break, if any. -/
def check (s : Settings) : Except RuleError Unit := do
  refuseIf (s.resolver.tierHierarchy = []) .noTiers
  checkTiers [] s.resolver.tierHierarchy
  checkProcessor s.processor
  refuseIf (s.ledger.outputDirectory = []) .outputDirectory
  refuseIf (s.ledger.rotationHours ≤ 0) .rotationHours
  refuseIf (s.ledger.maxFileSizeMb ≤ 0) .maxFileSize
  refuseIf (s.service.workerThreads < 1) .workerThreads
  refuseIf (s.vocabulary.requireFile = true ∧ s.vocabulary.file = []) .missingVocabularyFile

end Settings

end TradeReentry
