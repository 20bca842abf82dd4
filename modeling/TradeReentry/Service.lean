import TradeReentry.Decision.Desk
import TradeReentry.Vocabulary.Reader

/-!
The service that holds all components and takes them through their life: they are built and made
ready in order, the desk is opened and closed, and contexts are answered directly or handed in.
-/

namespace TradeReentry

structure Service where
  settings : Settings
  /-- The components of the latest attempt to make them ready, which may have failed. -/
  desk? : Option Desk := none
  isReady : Bool := false
  isStarted : Bool := false
deriving DecidableEq, Repr

namespace Service

/-- Why a service is not ready. -/
inductive ReadyError where
  | settings (error : Settings.RuleError)
  | vocabulary (error : Vocabulary.LoadError)
  | resolver (error : Resolver.LoadError)
  | ledger (error : Ledger.PrepareError)
deriving DecidableEq, Repr

/-- The component that failed and its error, where it was a component. -/
def ReadyError.component? : ReadyError → Option (Text × Text)
  | .settings _ | .vocabulary _ => none
  | .resolver error => some ("resolver", error.message)
  | .ledger error => some ("ledger", error.message)

def ReadyError.message : ReadyError → Text
  | .settings error => "配置非法: " ++ error.message
  | .vocabulary error => Vocabulary.requiredMessage error
  | .resolver error => "resolver 初始化失败: " ++ error.message
  | .ledger error => "ledger 初始化失败: " ++ error.message

/-- The log entry of a component that failed. -/
def ReadyError.entries (error : ReadyError) : List Log.Entry :=
  match error.component? with
  | some (name, message) =>
    [⟨.error, "SERVICE_INIT_FAILED: component=" ++ name ++ " error=" ++ message⟩]
  | none => []

/-- The components before any of them was made ready. -/
def build (settings : Settings) (vocabulary : Vocabulary) : Desk :=
  .ofSettings settings.service <| some {
    settings := settings.processor
    vocabulary
    resolver := { settings := settings.resolver, vocabulary }
    tracker := {
      cooldownMinutes := settings.processor.cooldownMinutes
      maxAttemptsPerDay := settings.processor.maxAttemptsPerDay }
    ledger? :=
      if settings.ledger.enabled then
        some { settings := settings.ledger, schema := Schema.reentryDecisions }
      else none }

/-- Makes the resolver ready and then the ledger. -/
def prepareDesk (desk : Desk) (disk : Disk) (now : Instant) :
    Step (Desk × Disk) (Except ReadyError Unit) :=
  match desk.processor? with
  | none => { result := .ok (), state := (desk, disk) }
  | some processor =>
    let loaded := processor.resolver.reload disk now
    let processor := { processor with resolver := loaded.state }
    let desk := { desk with processor? := some processor }
    match loaded.result, processor.ledger? with
    | .error e, _ => { result := .error (.resolver e), state := (desk, disk), log := loaded.log }
    | .ok (), none => { result := .ok (), state := (desk, disk), log := loaded.log }
    | .ok (), some ledger =>
      let prepared := ledger.prepare disk
      let log := loaded.log ++ prepared.log
      match prepared.result with
      | .error e => { result := .error (.ledger e), state := (desk, prepared.state), log }
      | .ok () => { result := .ok (), state := (desk, prepared.state), log }

/-- The log entry of a service that is ready. -/
def readyEntry (settings : Settings) : Log.Entry :=
  let ledger : Text :=
    if settings.ledger.enabled then settings.ledger.outputDirectory else "disabled"
  ⟨.info, "SERVICE_INITIALIZED: name=" ++ settings.service.name ++ " ledger=" ++ ledger ++
    " workers=" ++ Text.ofInt settings.service.workerThreads⟩

/-- Builds the components anew and makes them ready, unless they are. -/
def prepare (s : Service) (disk : Disk) (now : Instant) :
    Step (Service × Disk) (Except ReadyError Unit) :=
  if s.isReady then { result := .ok (), state := (s, disk) }
  else
    match s.settings.check with
    | .error e => { result := .error (.settings e), state := (s, disk) }
    | .ok () =>
      match Vocabulary.ofSettings disk s.settings.vocabulary with
      | (.error e, log) => { result := .error (.vocabulary e), state := (s, disk), log }
      | (.ok vocabulary, log) =>
        let step := prepareDesk (build s.settings vocabulary) disk now
        let (desk, disk) := step.state
        let log := log ++ step.log
        match step.result with
        | .error e =>
          { result := .error e, state := ({ s with desk? := some desk }, disk)
            log := log ++ e.entries }
        | .ok () =>
          { result := .ok (), state := ({ s with desk? := some desk, isReady := true }, disk)
            log := log ++ [readyEntry s.settings] }

/-- Opens the desk of a service that is ready. -/
def start (s : Service) : Service × List Log.Entry :=
  match s.desk? with
  | some desk =>
    if s.isReady && !s.isStarted then
      let (desk, log) := desk.unlock
      ({ s with desk? := some desk, isStarted := true },
        log ++ [⟨.info, "SERVICE_STARTED: name=" ++ s.settings.service.name⟩])
    else (s, [])
  | none => (s, [])

/-- Closes the desk of a service that is started. -/
def stop (s : Service) : Service × List Log.Entry :=
  match s.desk? with
  | some desk =>
    if s.isStarted then
      let (desk, log) := desk.close
      ({ s with desk? := some desk, isStarted := false },
        log ++ [⟨.info, "SERVICE_STOPPED: name=" ++ s.settings.service.name⟩])
    else (s, [])
  | none => (s, [])

/-- The answer of a service that is not ready. -/
def notReady (context : Context) : Response :=
  { tradeId := context.tradeId, symbol := context.symbol, reason := "service not initialized" }

/-- Answers a context directly while the clock runs. -/
def answer (s : Service) (disk : Disk) (clock : Processor.Readings) (context : Context) :
    Step (Service × Disk) Response :=
  match s.desk? with
  | some desk =>
    if s.isReady then
      let step := desk.answer disk clock context
      { result := step.result
        state := ({ s with desk? := some step.state.1 }, step.state.2)
        log := step.log }
    else { result := notReady context, state := (s, disk) }
  | none => { result := notReady context, state := (s, disk) }

/-- Answers a context directly at an instant. -/
def process (s : Service) (disk : Disk) (now : Instant) (context : Context) :
    Step (Service × Disk) Response := s.answer disk (.constant now) context

/-- Answers contexts directly, in order, each with what the clock says on the way. -/
def answerAll (s : Service) (disk : Disk) :
    List (Processor.Readings × Context) → Step (Service × Disk) (List Response)
  | [] => { result := [], state := (s, disk) }
  | (clock, context) :: rest =>
    let first := s.answer disk clock context
    let others := first.state.1.answerAll first.state.2 rest
    { result := first.result :: others.result
      state := others.state
      log := first.log ++ others.log }

/-- Answers contexts directly, in order, at an instant. -/
def processAll (s : Service) (disk : Disk) (now : Instant) (contexts : List Context) :
    Step (Service × Disk) (List Response) := s.answerAll disk (contexts.map (.constant now, ·))

/-- Hands in a context while the clock runs and says whether it was taken. -/
def handIn (s : Service) (disk : Disk) (clock : Processor.Readings) (context : Context) :
    Step (Service × Disk) Bool :=
  match s.desk? with
  | some desk =>
    if s.isStarted then
      let step := desk.handIn disk clock context
      { result := step.result
        state := ({ s with desk? := some step.state.1 }, step.state.2)
        log := step.log }
    else { result := false, state := (s, disk) }
  | none => { result := false, state := (s, disk) }

/-- Hands in a context at an instant. -/
def submit (s : Service) (disk : Disk) (now : Instant) (context : Context) :
    Step (Service × Disk) Bool := s.handIn disk (.constant now) context

/-- Collects the answers that wait. -/
def collect (s : Service) : List Response × Service :=
  match s.desk? with
  | some desk => (desk.collect.1, { s with desk? := some desk.collect.2 })
  | none => ([], s)

/-- Why parameter sets were not loaded again. -/
inductive ReloadError where
  | notReady
  | load (error : Resolver.LoadError)
deriving DecidableEq, Repr

def ReloadError.message : ReloadError → Text
  | .notReady => "service not initialized"
  | .load error => error.message

/-- The processor of the latest components. -/
def processor? (s : Service) : Option Processor := s.desk?.bind (·.processor?)

/-- The service with another processor behind its desk. -/
def withProcessor (s : Service) (processor : Processor) : Service :=
  { s with desk? := s.desk?.map fun desk => { desk with processor? := some processor } }

/-- Loads the parameter sets again. -/
def reload (s : Service) (disk : Disk) (now : Instant) :
    Step Service (Except ReloadError Unit) :=
  match s.processor? with
  | none => { result := .error .notReady, state := s }
  | some processor =>
    let step := processor.resolver.reload disk now
    { result := match step.result with
        | .ok () => .ok ()
        | .error e => .error (.load e)
      state := s.withProcessor { processor with resolver := step.state }
      log := step.log }

/-- What the answer to a context logs before it meets a directory in place of a file of the ledger, if
it meets one. -/
def abortLog? (s : Service) (disk : Disk) (clock : Processor.Readings) (context : Context) :
    Option (List Log.Entry) :=
  if s.isReady then s.processor?.bind (·.abortLog? disk clock context) else none

/-- Answers contexts directly, in order, as a program that ends where one meets a directory: then there
are no answers, and the state is that before the context. -/
def answerToEnd (s : Service) (disk : Disk) :
    List (Processor.Readings × Context) → Step (Service × Disk) (Option (List Response))
  | [] => { result := some [], state := (s, disk) }
  | (clock, context) :: rest =>
    match s.abortLog? disk clock context with
    | some log => { result := none, state := (s, disk), log }
    | none =>
      let first := s.answer disk clock context
      let others := first.state.1.answerToEnd first.state.2 rest
      { result := others.result.map (first.result :: ·)
        state := others.state
        log := first.log ++ others.log }

/-- The health of each component, in the order in which they are made ready. -/
def health (s : Service) (disk : Disk) : List Health :=
  match s.desk? with
  | none => []
  | some desk =>
    (match desk.processor? with
      | none => []
      | some processor =>
        processor.resolver.health :: (processor.ledger?.map (·.health disk)).toList) ++
      [desk.health]

end Service

end TradeReentry
