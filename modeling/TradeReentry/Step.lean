import TradeReentry.Log

/-!
The outcome of an operation on a state: its result, the state afterwards and what it logged.
-/

namespace TradeReentry

structure Step (σ α : Type) where
  result : α
  state : σ
  log : List Log.Entry := []
deriving Repr

end TradeReentry
