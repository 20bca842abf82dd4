import TradeReentry.Cli.Arguments
import TradeReentry.Cli.Batch
import TradeReentry.Ledger.Audit
import TradeReentry.Service
import TradeReentry.Settings.Reader

/-!
Running a command line on files: what it prints, its exit status and the files afterwards.
-/

namespace TradeReentry.Cli

/-- How a run ends. A run that reads a directory byte by byte is aborted by an error that nothing
catches. -/
inductive Exit where
  | success
  | failure
  | usage
  | aborted
deriving DecidableEq, Repr

/-- The exit status; of a run that is aborted it is that of the signal, as a shell tells it. -/
def Exit.code : Exit → Nat
  | .success => 0
  | .failure => 1
  | .usage => 2
  | .aborted => 134

/-- Something that a run writes. -/
inductive Output where
  | out (text : Text)
  | err (text : Text)
  | log (entry : Log.Entry)
deriving DecidableEq, Repr

/-- What is written to the standard output; errors of the log go elsewhere. -/
def Output.stdout (now : Instant) : Output → Text
  | .out text => text
  | .err _ => []
  | .log entry => if entry.level = .error then [] else entry.line now

/-- What is written to the standard error. -/
def Output.stderr (now : Instant) : Output → Text
  | .out _ => []
  | .err text => text
  | .log entry => if entry.level = .error then entry.line now else []

/-- The end of a run, what it wrote in order, and the files afterwards. -/
structure Run where
  exit : Exit
  output : List Output
  disk : Disk
deriving DecidableEq, Repr

def Run.stdout (run : Run) (now : Instant) : Text := run.output.flatMap (·.stdout now)

def Run.stderr (run : Run) (now : Instant) : Text := run.output.flatMap (·.stderr now)

def usage : Text :=
  "用法: reentry_cli [--config=PATH] <command> [args]\n" ++
  "  compose OUTCOME DURATION PROXIMITY CALENDAR DIRECTION GENERATION [SUFFIX]\n" ++
  "  parse ID | validate ID | hash ID | comment ID\n" ++
  "  chain GENERATION\n" ++
  "  vocab\n" ++
  "  resolve OUTCOME DURATION PROXIMITY CALENDAR SYMBOL [GENERATION]\n" ++
  "  status\n" ++
  "  process --input=FILE\n" ++
  "  verify FILE|DIR\n"

/-- The end of a command and what it wrote. -/
abbrev Result := Exit × List Output

def logged (entries : List Log.Entry) : List Output := entries.map .log

def logError (message : Text) : Output := .log ⟨.error, message⟩

def line (t : Text) : Output := .out (t ++ "\n")

/-- A failure that is told as an error of the log. -/
def failed (message : Text) : Result := (.failure, [logError message])

/-! ## Identifiers -/

/-- A JSON object of members. -/
def jsonObject (members : List Text) : Text :=
  Ascii.openBrace :: Text.join "," members ++ [Ascii.closeBrace]

/-- The JSON form of an identifier. -/
def identifierJson (id : HybridId) : Text :=
  jsonObject [
    Response.member "outcome" (Json.quote id.outcome),
    Response.member "duration" (Json.quote id.duration),
    Response.member "proximity" (Json.quote id.proximity),
    Response.member "calendar" (Json.quote id.calendar),
    Response.member "direction" (Json.quote id.direction),
    Response.member "generation" (Text.ofInt id.generation),
    Response.member "suffix" (id.suffix?.elim "null" Json.quote)]

/-- Prints a value, or the error of an identifier. -/
def printOrFail (result : Except HybridId.Error Text) : Result :=
  match result with
  | .ok t => (.success, [line t])
  | .error e => (.failure, [.err (e.fullMessage ++ "\n")])

def runChain : List Text → Result
  | [generation] =>
    match Text.toInt32? generation with
    | some n => printOrFail (HybridId.chainPosition n)
    | none => (.usage, [])
  | _ => (.usage, [])

/-- The parts that operands spell. -/
def partsOf? : List Text → Option HybridId
  | [outcome, duration, proximity, calendar, direction, generation] =>
    (Text.toInt32? generation).map fun generation =>
      { outcome, duration, proximity, calendar, direction, generation }
  | [outcome, duration, proximity, calendar, direction, generation, suffix] =>
    (Text.toInt32? generation).map fun generation =>
      { outcome, duration, proximity, calendar, direction, generation, suffix? := some suffix }
  | _ => none

def runCompose (v : Vocabulary) (operands : List Text) : Result :=
  match partsOf? operands with
  | some parts => printOrFail ((HybridId.compose v parts).map (·.toText))
  | none => (.usage, [])

/-- The commands that take one identifier. -/
def runOnText (v : Vocabulary) (command text : Text) : Result :=
  if command = "parse" then printOrFail ((HybridId.parse v text).map identifierJson)
  else if command = "validate" then
    if HybridId.isValid v text then (.success, [line "valid"]) else (.failure, [line "invalid"])
  else if command = "hash" then (.success, [line (HybridId.commentHash text)])
  else if command = "comment" then (.success, [line (HybridId.comment v text)])
  else (.usage, [])

def codecCommands : List Text :=
  ["compose", "parse", "validate", "hash", "comment", "chain", "vocab"]

/-- The commands on identifiers and the vocabulary. -/
def runCodec (arguments : Arguments) (settings : Settings) (disk : Disk) : Result :=
  match Vocabulary.ofSettings disk settings.vocabulary with
  | (.error e, log) => (.failure, logged log ++ [logError (Vocabulary.requiredMessage e)])
  | (.ok v, log) =>
    let (exit, output) :=
      if arguments.command = "vocab" then (.success, [.out v.summary])
      else if arguments.command = "chain" then runChain arguments.operands
      else if arguments.command = "compose" then runCompose v arguments.operands
      else
        match arguments.operands with
        | [text] => runOnText v arguments.command text
        | _ => (.usage, [])
    (exit, logged log ++ output)

/-! ## The service -/

def flagJson (b : Bool) : Text := if b then "true" else "false"

/-- The JSON form of resolved parameters. -/
def parametersJson (p : ResolvedParameters) : Text :=
  jsonObject [
    Response.member "parameter_set_id" (Json.quote p.setId),
    Response.member "parameter_set_name" (Json.quote p.setName),
    Response.member "resolved_tier" (Json.quote p.tier),
    Response.member "specificity_score" p.specificity.cellText,
    Response.member "reentry_enabled" (flagJson p.reentryEnabled),
    Response.member "max_generation" (Text.ofInt p.maxGeneration),
    Response.member "lot_size_multiplier" p.lotSizeMultiplier.cellText,
    Response.member "stop_loss_pips" p.stopLossPips.cellText,
    Response.member "take_profit_pips" p.takeProfitPips.cellText,
    Response.member "confidence_threshold" p.confidenceThreshold.cellText,
    Response.member "min_wait_minutes" (Text.ofInt p.minWaitMinutes),
    Response.member "max_wait_minutes" (Text.ofInt p.maxWaitMinutes),
    Response.member "generation_allowed" (flagJson p.generationAllowed),
    Response.member "next_generation" (p.nextGeneration?.elim "null" Text.ofInt)]

/-- The request that operands spell. -/
def requestOf? : List Text → Option ResolveRequest
  | [outcome, duration, proximity, calendar, symbol] =>
    some { criteria := { outcome, duration, proximity, calendar, symbol }, generation := 1 }
  | [outcome, duration, proximity, calendar, symbol, generation] =>
    (Text.toInt32? generation).map fun generation =>
      { criteria := { outcome, duration, proximity, calendar, symbol }, generation }
  | _ => none

def runResolve (resolver : Resolver) (operands : List Text) : Result :=
  match requestOf? operands with
  | none => (.usage, [])
  | some request =>
    let step := resolver.resolve request
    (.success, logged step.log ++ [line (parametersJson step.result)])

/-- The line of a tier and the number of its active sets. -/
def tierLine (status : Resolver.Status) (tier : Text) : Output :=
  line ("  " ++ tier ++ ": " ++ Text.ofNat ((status.tierCounts.find? tier).getD 0))

def healthLine (health : Health) : Output :=
  line (health.component ++ ": " ++ health.state.name ++ " " ++ health.detail)

def runStatus (service : Service) (resolver : Resolver) (disk : Disk) : Result :=
  let status := resolver.status
  (.success,
    line ("parameter_sets: total=" ++ Text.ofNat status.total ++ " active=" ++
      Text.ofNat status.active ++ " source=" ++ status.source ++ " loaded_at=" ++
      status.loadedAt) ::
      status.tierHierarchy.map (tierLine status) ++ (service.health disk).map healthLine)

/-- Whether an answer makes a run fail. -/
def isFailure (r : Response) : Bool := r.status = .invalidContext || r.status = .writeFailure

/-- What the clock says on the way through a run: when parameter sets are loaded, and on the way
through each decision. -/
structure Clock where
  loading : Instant
  answering : Nat → Processor.Readings

/-- A clock that stands still. -/
def Clock.constant (now : Instant) : Clock := ⟨now, fun _ => .constant now⟩

/-- Answers the contexts of a file, all of which are read before the first is answered and printed
after the last. -/
def runProcess (service : Service) (disk : Disk) (clock : Clock) (inputPath : Text) : Run :=
  if inputPath.isEmpty then { exit := .usage, output := [], disk }
  else if disk.isDirectory inputPath then { exit := .aborted, output := [], disk }
  else
    match Batch.ofFile disk inputPath with
    | .error e => { exit := .failure, output := [logError e.message], disk }
    | .ok contexts =>
      let step := service.answerToEnd disk (contexts.mapIdx (clock.answering ·, ·))
      match step.result with
      | none => { exit := .aborted, output := logged step.log, disk := step.state.2 }
      | some responses =>
        { exit := if responses.any isFailure then .failure else .success
          output := logged step.log ++ responses.map fun r => line r.toJson
          disk := step.state.2 }

def serviceCommands : List Text := ["resolve", "status", "process"]

/-- The commands that need the service. Only `process` writes a ledger. -/
def runService (arguments : Arguments) (settings : Settings) (disk : Disk) (clock : Clock) : Run :=
  let settings :=
    if arguments.command = "process" then settings else { settings with ledger.enabled := false }
  let step := Service.prepare { settings } disk clock.loading
  let (service, disk) := step.state
  match step.result, service.processor? with
  | .error e, _ =>
    { exit := .failure, output := logged step.log ++ [logError ("服务初始化失败: " ++ e.message)]
      disk }
  | .ok (), none => { exit := .failure, output := logged step.log, disk }
  | .ok (), some processor =>
    let run : Run :=
      if arguments.command = "resolve" then
        let (exit, output) := runResolve processor.resolver arguments.operands
        { exit, output, disk }
      else if arguments.command = "status" then
        let (exit, output) := runStatus service processor.resolver disk
        { exit, output, disk }
      else runProcess service disk clock arguments.inputPath
    { run with output := logged step.log ++ run.output }

/-! ## Auditing -/

/-- Audits a file, or the files of a directory. -/
def runVerify (disk : Disk) : (operands : List Text) → Result
  | [target] =>
    let reports :=
      if disk.isDirectory target then Audit.ofDirectory disk target
      else [Audit.ofFile disk target]
    (if reports.all (·.passed) then .success else .failure, reports.map fun r => .out r.text)
  | _ => (.usage, [])

/-! ## The program -/

/-- The settings file that is read where no other is named. -/
def defaultConfigPath : Text := "config/reentry.yaml"

/-- The settings of a run: those of the file that is named, which has to be there, or of the default
one if it exists, or the built-in ones. -/
def loadSettings (arguments : Arguments) (disk : Disk) :
    Except Settings.LoadError Settings × List Log.Entry :=
  let path? := arguments.configPath?.or
    (if disk.pathExists defaultConfigPath then some defaultConfigPath else none)
  match path? with
  | none => (.ok {}, [])
  | some path =>
    let step := Settings.load disk path {}
    match step.result with
    | .error e => (.error e, [⟨.error, "配置加载失败: " ++ e.message⟩])
    | .ok () => (.ok step.state, [⟨.info, "配置加载成功: file=" ++ path⟩])

/-- Runs a command that may need settings. -/
def runCommand (arguments : Arguments) (disk : Disk) (clock : Clock) : Run :=
  if arguments.command = "verify" then
    let (exit, output) := runVerify disk arguments.operands
    { exit, output, disk }
  else
    match loadSettings arguments disk with
    | (.error _, log) => { exit := .failure, output := logged log, disk }
    | (.ok settings, log) =>
      let run : Run :=
        if codecCommands.contains arguments.command then
          let (exit, output) := runCodec arguments settings disk
          { exit, output, disk }
        else if serviceCommands.contains arguments.command then
          runService arguments settings disk clock
        else { exit := .usage, output := [], disk }
      { run with output := logged log ++ run.output }

/-- Runs the program on the words of its command line while the clock runs. -/
def runDuring (words : List Text) (disk : Disk) (clock : Clock) : Run :=
  match Arguments.ofWords words with
  | .error e => { exit := .usage, output := [.err (e.message ++ usage)], disk }
  | .ok arguments =>
    let run := runCommand arguments disk clock
    if run.exit = .usage then { run with output := run.output ++ [.err usage] } else run

/-- Runs the program on the words of its command line at an instant. -/
def run (words : List Text) (disk : Disk) (now : Instant) : Run :=
  runDuring words disk (.constant now)

end TradeReentry.Cli
