import TradeReentry.Decision.Processor

/-!
A desk where contexts are handed in and answers are collected.

While the desk is open, each context handed in is answered by the processor behind it, in order, and
the answer waits until it is collected. Closing the desk refuses further contexts and keeps the
answers.
-/

namespace TradeReentry

/-- A desk and the processor behind it, which may be missing. -/
structure Desk where
  workers : Nat
  processor? : Option Processor
  isOpen : Bool := false
  /-- The answers that were not collected yet, in order. -/
  waiting : List Response := []
deriving DecidableEq, Repr

namespace Desk

/-- The name of the component. -/
def componentName : Text := "decision_executor"

/-- A closed desk with a number of workers, at least one. -/
def ofSettings (settings : ServiceSettings) (processor? : Option Processor) : Desk where
  workers := (max settings.workerThreads 1).toNat
  processor? := processor?

/-- Why a desk cannot be used. -/
def missingProcessorMessage : Text := "决策执行器未注入处理器"

/-- Opens a closed desk. -/
def unlock (d : Desk) : Desk × List Log.Entry :=
  if d.isOpen then (d, [])
  else
    ({ d with isOpen := true },
      [⟨.info, "DECISION_EXECUTOR_STARTED: workers=" ++ Text.ofNat d.workers⟩])

/-- Closes an open desk. -/
def close (d : Desk) : Desk × List Log.Entry :=
  if d.isOpen then ({ d with isOpen := false }, [⟨.info, "DECISION_EXECUTOR_STOPPED"⟩])
  else (d, [])

/-- The answer where there is no processor. -/
def unanswered (context : Context) : Response :=
  { tradeId := context.tradeId, symbol := context.symbol, reason := "processor not configured" }

/-- Answers a context directly while the clock runs. -/
def answer (d : Desk) (disk : Disk) (clock : Processor.Readings) (context : Context) :
    Step (Desk × Disk) Response :=
  match d.processor? with
  | none => { result := unanswered context, state := (d, disk) }
  | some processor =>
    let step := processor.answer disk clock context
    { result := step.result
      state := ({ d with processor? := some step.state.1 }, step.state.2)
      log := step.log }

/-- Hands in a context while the clock runs and says whether the desk took it. -/
def handIn (d : Desk) (disk : Disk) (clock : Processor.Readings) (context : Context) :
    Step (Desk × Disk) Bool :=
  if d.isOpen then
    let step := d.answer disk clock context
    { result := true
      state := ({ step.state.1 with waiting := step.state.1.waiting ++ [step.result] },
        step.state.2)
      log := step.log }
  else { result := false, state := (d, disk) }

/-- Hands in a context at an instant. -/
def submit (d : Desk) (disk : Disk) (now : Instant) (context : Context) : Step (Desk × Disk) Bool :=
  d.handIn disk (.constant now) context

/-- Collects the answers that wait. -/
def collect (d : Desk) : List Response × Desk := (d.waiting, { d with waiting := [] })

/-- The contexts that were handed in and are not answered yet: there are none between operations. -/
def pending (_ : Desk) : Nat := 0

/-- A closed desk is degraded. -/
def health (d : Desk) : Health :=
  if d.isOpen then
    ⟨componentName, .healthy, "workers=" ++ Text.ofNat d.workers ++ " pending=" ++
      Text.ofNat d.pending⟩
  else ⟨componentName, .degraded, "stopped"⟩

end Desk

end TradeReentry
