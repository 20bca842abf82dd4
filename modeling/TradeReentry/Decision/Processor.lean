import TradeReentry.Admission.Tracker
import TradeReentry.Decision.Context
import TradeReentry.Decision.Sizing
import TradeReentry.HybridId.Comment
import TradeReentry.Ledger.Writer
import TradeReentry.Resolver

/-!
Deciding closed trades.

A context is checked, has to pass the gates of the settings and the admission of its symbol, is
classified and given parameters, an identifier, an action, a lot and a confidence, and is recorded.
The admission is committed only once the decision is recorded; whatever ends earlier releases it.
Each answer is counted and kept in a list of recent ones.
-/

namespace TradeReentry

namespace Processor

/-- The answers so far, counted by what became of them. -/
structure Tally where
  processed : Nat := 0
  skipped : Nat := 0
  invalidContexts : Nat := 0
  writeFailures : Nat := 0
  emergencyFallbacks : Nat := 0
  skipReasons : NameMap Nat := .empty
deriving DecidableEq, Repr

/-- The tally after an answer. -/
def Tally.count (t : Tally) (r : Response) : Tally :=
  match r.status with
  | .processed =>
    { t with
      processed := t.processed + 1
      emergencyFallbacks := t.emergencyFallbacks + if r.resolvedTier = emergencyTier then 1 else 0 }
  | .skipped =>
    { t with
      skipped := t.skipped + 1
      skipReasons := t.skipReasons.modify r.reason 0 (· + 1) }
  | .invalidContext => { t with invalidContexts := t.invalidContexts + 1 }
  | .writeFailure => { t with writeFailures := t.writeFailures + 1 }

/-- Why a context is skipped before its symbol is asked for. -/
inductive Gate where
  | notClosed
  | tooShort
  | manualClose
deriving DecidableEq, Repr

def Gate.reason : Gate → Text
  | .notClosed => "trade_not_completed"
  | .tooShort => "duration_too_short"
  | .manualClose => "manual_close_excluded"

/-- The first gate of the settings that a context does not pass. -/
def gate? (s : ProcessorSettings) (c : Context) : Option Gate :=
  if s.completedTradesOnly && !c.tradeClosed then some .notClosed
  else if c.durationMinutes < s.minTradeDurationMinutes then some .tooShort
  else if s.excludeManualCloses && c.closeReason = "MANUAL" then some .manualClose
  else none

end Processor

/-- A processor with its components and its history. Without a ledger nothing is recorded. -/
structure Processor where
  settings : ProcessorSettings
  vocabulary : Vocabulary
  resolver : Resolver
  tracker : Tracker
  ledger? : Option Ledger := none
  tally : Processor.Tally := {}
  /-- The recent answers, the latest first. -/
  recent : List Response := []
deriving DecidableEq, Repr

namespace Processor

/-- The reason that a processed answer without a record carries. -/
def ledgerDisabledReason : Text := "ledger_disabled"

/-- The list of recent answers with another one at its head. A negative capacity is no limit. -/
def remember (capacity : Int) (recent : List Response) (r : Response) : List Response :=
  if capacity < 0 then r :: recent else (r :: recent).take capacity.toNat

/-- Counts and keeps an answer. -/
def finish (p : Processor) (disk : Disk) (r : Response) (log : List Log.Entry) :
    Step (Processor × Disk) Response where
  result := r
  state := ({ p with
    tally := p.tally.count r
    recent := remember p.settings.recentCapacity p.recent r }, disk)
  log := log

/-- The log entry of a context that is answered as invalid. -/
def invalidEntry (tradeId reason : Text) : Log.Entry :=
  ⟨.warn, "REENTRY_DECISION_INVALID: trade_id=" ++ tradeId ++ " reason=" ++ reason⟩

/-- The log entry of a context that is skipped. -/
def skippedEntry (c : Context) (reason : Text) : Log.Entry :=
  ⟨.info, "REENTRY_DECISION_SKIPPED: trade_id=" ++ c.tradeId ++ " symbol=" ++ c.symbol ++
    " reason=" ++ reason⟩

/-- The log entry of a processed context. -/
def processedEntry (r : Response) : Log.Entry :=
  let event := "REENTRY_DECISION: trade_id=" ++ r.tradeId ++ " symbol=" ++ r.symbol ++
    " hybrid_id=" ++ r.hybridId ++ " action=" ++ r.action.name ++ " tier=" ++ r.resolvedTier ++
    " set=" ++ r.parameterSetId ++ " lot=" ++ r.lotSize.cellText ++ " confidence=" ++
    r.confidence.decimalText Response.confidencePlaces ++ " file_seq=" ++
    Text.ofNat r.sequence.toNat
  if r.reason.isEmpty then ⟨.info, event⟩ else ⟨.warn, event ++ " reason=" ++ r.reason⟩

/-- The classes of a context. -/
def classify (s : ProcessorSettings) (c : Context) (r : Response) : Response :=
  { r with
    outcomeClass := s.classifyOutcome c.profitLossPips
    durationClass := s.classifyDuration c.durationMinutes }

/-- What a classified context asks the resolver for. -/
def requestOf (c : Context) (r : Response) : ResolveRequest where
  criteria := {
    outcome := r.outcomeClass.name
    duration := r.durationClass.name
    proximity := c.proximityState
    calendar := c.calendarId
    symbol := c.symbol }
  generation := c.generation

/-- The parts of the identifier of a classified context. -/
def partsOf (c : Context) (r : Response) : HybridId where
  outcome := r.outcomeClass.token
  duration := r.durationClass.name
  proximity := c.proximityState
  calendar := c.calendarId
  direction := c.direction
  generation := c.generation

/-- The identifier of a classified context and its position in the chain. -/
def identify (v : Vocabulary) (c : Context) (r : Response) : Except HybridId.Error Response := do
  let id ← HybridId.compose v (partsOf c r)
  let chainPosition ← HybridId.chainPosition c.generation
  .ok { r with chainPosition, hybridId := id.toText, comment := HybridId.comment v id.toText }

/-- The action of a context under its parameters, and the generation that it leads to. -/
def chooseAction (c : Context) (resolved : ResolvedParameters) (r : Response) : Response :=
  if resolved.reentryEnabled && c.generation < resolved.maxGeneration then
    { r with
      action := .into (c.generation + 1)
      nextGeneration? := some (c.generation + 1) }
  else { r with action := .noReentry }

/-- The numbers of a decision. -/
def quantify (s : ProcessorSettings) (c : Context) (resolved : ResolvedParameters)
    (r : Response) : Response :=
  { r with
    lotSize := s.sizeLot c.symbol c.lotSize resolved.lotSizeMultiplier
    stopLoss := resolved.stopLossPips
    takeProfit := resolved.takeProfitPips
    confidence := s.scoreConfidence resolved.confidenceThreshold resolved.specificity
      r.outcomeClass c.generation }

/-- Records a decision: its answer with the row's number and checksum, or the error. -/
def record (p : Processor) (disk : Disk) (now : Instant) (r : Response) :
    Step (Processor × Disk) (Except Ledger.WriteError Response) :=
  match p.ledger? with
  | none => { result := .ok { r with reason := ledgerDisabledReason }, state := (p, disk) }
  | some ledger =>
    let step := ledger.append disk now r.toRow
    { result := step.result.map fun receipt =>
        { r with sequence := receipt.sequence, checksum := receipt.checksum }
      state := ({ p with ledger? := some step.state.1 }, step.state.2)
      log := step.log }

/-- The processor after the admission of a symbol has ended. -/
def settle (p : Processor) (symbol : Text) (now : Instant) (settlement : Tracker.Settlement) :
    Processor :=
  { p with tracker := p.tracker.settle symbol now settlement }

/-- What the clock says on the way through a decision: when the symbol is asked for, when the row is
written and when the admission ends. -/
structure Readings where
  admission : Instant
  writing : Instant
  settlement : Instant
deriving DecidableEq, Repr

/-- A clock that stands still. -/
def Readings.constant (now : Instant) : Readings := ⟨now, now, now⟩

/-- Records a decided context of an admitted symbol and ends the admission. -/
def conclude (p : Processor) (disk : Disk) (clock : Readings) (r : Response)
    (log : List Log.Entry) : Step (Processor × Disk) Response :=
  let step := p.record disk clock.writing r
  let (p, disk) := step.state
  match step.result with
  | .error e =>
    (p.settle r.symbol clock.settlement .release).finish disk
      { r with status := .writeFailure, reason := "write_failure: " ++ e.message }
      (log ++ step.log)
  | .ok r =>
    let r := { r with status := .processed }
    (p.settle r.symbol clock.settlement (.commit r.action.countsAsAttempt)).finish disk r
      (log ++ step.log ++ [processedEntry r])

/-- Decides a context of an admitted symbol. -/
def decide (p : Processor) (disk : Disk) (clock : Readings) (c : Context) (r : Response) :
    Step (Processor × Disk) Response :=
  let r := classify p.settings c r
  let step := p.resolver.resolve (requestOf c r)
  let resolved := step.result
  let p := { p with resolver := step.state }
  let r := { r with parameterSetId := resolved.setId, resolvedTier := resolved.tier }
  match identify p.vocabulary c r with
  | .error e =>
    (p.settle c.symbol clock.settlement .release).finish disk { r with reason := e.fullMessage }
      (step.log ++ [invalidEntry c.tradeId e.fullMessage])
  | .ok r =>
    p.conclude disk clock (quantify p.settings c resolved (chooseAction c resolved r)) step.log

/-- Answers a context with a reason not to decide it. -/
def skip (p : Processor) (disk : Disk) (c : Context) (r : Response) (reason : Text) :
    Step (Processor × Disk) Response :=
  p.finish disk { r with status := .skipped, reason } [skippedEntry c reason]

/-- Answers a context while the clock runs. -/
def answer (p : Processor) (disk : Disk) (clock : Readings) (context : Context) :
    Step (Processor × Disk) Response :=
  let r : Response := { tradeId := context.tradeId, symbol := context.symbol }
  match context.normalise p.vocabulary with
  | .error problems =>
    let reason := Context.problemsText problems
    p.finish disk { r with reason } [invalidEntry context.tradeId reason]
  | .ok c =>
    let r := { r with generation := c.generation }
    match gate? p.settings c with
    | some gate => p.skip disk c r gate.reason
    | none =>
      match p.tracker.acquire c.symbol clock.admission with
      | (.error refusal, tracker) => { p with tracker }.skip disk c r refusal.reason
      | (.ok (), tracker) => { p with tracker }.decide disk clock c r

/-- Answers a context at an instant. -/
def process (p : Processor) (disk : Disk) (now : Instant) (context : Context) :
    Step (Processor × Disk) Response := p.answer disk (.constant now) context

/-- Answers contexts in order, each with what the clock says on the way. -/
def answerAll (p : Processor) (disk : Disk) :
    List (Readings × Context) → Step (Processor × Disk) (List Response)
  | [] => { result := [], state := (p, disk) }
  | (clock, context) :: rest =>
    let first := p.answer disk clock context
    let others := first.state.1.answerAll first.state.2 rest
    { result := first.result :: others.result
      state := others.state
      log := first.log ++ others.log }

/-- Answers contexts in order at an instant. -/
def processAll (p : Processor) (disk : Disk) (now : Instant) (contexts : List Context) :
    Step (Processor × Disk) (List Response) := p.answerAll disk (contexts.map (.constant now, ·))

/-! ## Decisions that are not recorded

Where the file of a row is a directory, the answer does not come to its end and neither does the
program. What it logs until then is found without going through the answer.
-/

/-- The classes of a context that is decided. -/
def classified (p : Processor) (c : Context) : Response :=
  classify p.settings c { tradeId := c.tradeId, symbol := c.symbol, generation := c.generation }

/-- The parameters of a context that is decided. -/
def parameters (p : Processor) (c : Context) : ResolvedParameters :=
  (p.resolver.resolve (requestOf c (p.classified c))).result

/-- The identifier of a context that is decided. -/
def identified (p : Processor) (c : Context) : Except HybridId.Error Response :=
  identify p.vocabulary c { p.classified c with
    parameterSetId := (p.parameters c).setId, resolvedTier := (p.parameters c).tier }

/-- What is decided on a context that is identified. -/
def decision (p : Processor) (c : Context) (r : Response) : Response :=
  quantify p.settings c (p.parameters c) (chooseAction c (p.parameters c) r)

/-- The decision on a context that an answer is to record, with what is logged before. -/
def decision? (p : Processor) (clock : Readings) (context : Context) :
    Option (Response × List Log.Entry) :=
  match context.normalise p.vocabulary with
  | .error _ => none
  | .ok c =>
    match gate? p.settings c, (p.tracker.acquire c.symbol clock.admission).1, p.identified c with
    | none, .ok (), .ok r =>
      some (p.decision c r, (p.resolver.resolve (requestOf c (p.classified c))).log)
    | _, _, _ => none

/-- What an answer logs before it meets a directory in place of a file of the ledger, if it meets
one. -/
def abortLog? (p : Processor) (disk : Disk) (clock : Readings) (context : Context) :
    Option (List Log.Entry) :=
  match p.ledger?, p.decision? clock context with
  | some ledger, some (r, log) =>
    if ledger.meetsDirectory disk clock.writing r.toRow then some log else none
  | _, _ => none

/-! ## Reports -/

/-- The counts of a processor and what its tracker reports at an instant. -/
structure Stats where
  tally : Tally
  activeCooldowns : Nat
  dailyAttempts : List (Text × Int)
deriving DecidableEq, Repr

def stats (p : Processor) (now : Instant) : Stats where
  tally := p.tally
  activeCooldowns := p.tracker.activeCooldowns now
  dailyAttempts := p.tracker.dailyAttempts now

end Processor

end TradeReentry
