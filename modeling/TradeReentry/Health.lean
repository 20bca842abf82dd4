import TradeReentry.Text.Basic

/-!
The health that a component reports.
-/

namespace TradeReentry

/-- The state of a component. -/
inductive HealthState where
  | healthy
  | degraded
  | unhealthy
deriving DecidableEq, Repr

def HealthState.name : HealthState → Text
  | .healthy => "healthy"
  | .degraded => "degraded"
  | .unhealthy => "unhealthy"

/-- A component, its state and the reason. -/
structure Health where
  component : Text
  state : HealthState
  detail : Text
deriving DecidableEq, Repr

end TradeReentry
