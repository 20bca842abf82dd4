import TradeReentry.Text.NameMap
import TradeReentry.Time.Instant

/-!
Admission of decisions by symbol.

A symbol is refused for some minutes after a decision, and once its attempts of the UTC day are used
up. An admitted symbol is in flight until the decision is committed or released; only a commit
starts the cooldown and counts.
-/

namespace TradeReentry

namespace Tracker

/-- What is known of a symbol. -/
structure SymbolState where
  lastDecision? : Option Instant := none
  /-- The UTC day that the attempts were counted on. -/
  day? : Option Int := none
  attempts : Int := 0
  inFlight : Bool := false
deriving DecidableEq, Repr

structure Stats where
  checks : Nat := 0
  allowed : Nat := 0
  cooldownRejects : Nat := 0
  dailyLimitRejects : Nat := 0
  commits : Nat := 0
  /-- Admissions that ended without a commit. -/
  releases : Nat := 0
deriving DecidableEq, Repr

/-- Why a symbol is refused. -/
inductive Refusal where
  | cooldown
  | dailyLimit
deriving DecidableEq, Repr

def Refusal.reason : Refusal → Text
  | .cooldown => "cooldown_period_active"
  | .dailyLimit => "daily_limit_exceeded"

/-- How an admission ends. -/
inductive Settlement where
  | commit (countsAsAttempt : Bool)
  | release
deriving DecidableEq, Repr

end Tracker

structure Tracker where
  cooldownMinutes : Int
  maxAttemptsPerDay : Int
  symbols : NameMap Tracker.SymbolState := .empty
  stats : Tracker.Stats := {}
deriving DecidableEq, Repr

namespace Tracker

def state (t : Tracker) (symbol : Text) : SymbolState := (t.symbols.find? symbol).getD {}

/-- Whether an instant lies in the cooldown after a decision; one before the decision does not. -/
def inCooldown (t : Tracker) (last now : Instant) : Bool :=
  let elapsed := now - last
  0 ≤ elapsed && elapsed < t.cooldownMinutes * Instant.millisPerMinute

/-- Whether a symbol is refused for its cooldown. Without a positive cooldown none is. -/
def isCooling (t : Tracker) (state : SymbolState) (now : Instant) : Bool :=
  0 < t.cooldownMinutes && state.lastDecision?.any (t.inCooldown · now)

/-- Whether the cooldown of a symbol is counted as running. -/
def isCounted (t : Tracker) (state : SymbolState) (now : Instant) : Bool :=
  state.lastDecision?.any (t.inCooldown · now)

/-- The state with the attempts of an earlier day forgotten. -/
def SymbolState.onDay (state : SymbolState) (day : Int) : SymbolState :=
  if state.day? = some day then state else { state with day? := some day, attempts := 0 }

/-- Admits a symbol that is not in flight, or says why not. -/
def acquire (t : Tracker) (symbol : Text) (now : Instant) : Except Refusal Unit × Tracker :=
  let t := { t with stats.checks := t.stats.checks + 1 }
  let state := t.state symbol
  if t.isCooling state now then
    (.error .cooldown, { t with stats.cooldownRejects := t.stats.cooldownRejects + 1 })
  else
    let state := state.onDay now.dayIndex
    if t.maxAttemptsPerDay ≤ state.attempts then
      (.error .dailyLimit, { t with
        symbols := t.symbols.insert symbol state
        stats.dailyLimitRejects := t.stats.dailyLimitRejects + 1 })
    else
      (.ok (), { t with
        symbols := t.symbols.insert symbol { state with inFlight := true }
        stats.allowed := t.stats.allowed + 1 })

/-- Ends the admission of a symbol. -/
def settle (t : Tracker) (symbol : Text) (now : Instant) : Settlement → Tracker
  | .release =>
    { t with
      symbols := t.symbols.insert symbol { t.state symbol with inFlight := false }
      stats.releases := t.stats.releases + 1 }
  | .commit countsAsAttempt =>
    let state := (t.state symbol).onDay now.dayIndex
    { t with
      symbols := t.symbols.insert symbol { state with
        inFlight := false
        lastDecision? := some now
        attempts := if countsAsAttempt then state.attempts + 1 else state.attempts }
      stats.commits := t.stats.commits + 1 }

/-- The number of symbols whose cooldown runs. -/
def activeCooldowns (t : Tracker) (now : Instant) : Nat :=
  (t.symbols.entries.filter (t.isCounted ·.2 now)).length

/-- The attempts of the UTC day, of the symbols that have any. -/
def dailyAttempts (t : Tracker) (now : Instant) : List (Text × Int) :=
  t.symbols.entries.filterMap fun (symbol, state) =>
    if state.day? = some now.dayIndex ∧ 0 < state.attempts then some (symbol, state.attempts)
    else none

end Tracker

end TradeReentry
