import TradeReentry.Cli.Run

/-!
The paths that a run looks at. Whoever brings what lies at them into a disk beforehand gets the same
run as on the whole file system.
-/

namespace TradeReentry.Cli

/-- The paths that a command line names: the settings, the input and what is audited. -/
def argumentPaths (words : List Text) : List Text :=
  match Arguments.ofWords words with
  | .error _ => []
  | .ok arguments =>
    let audited := if arguments.command = "verify" then arguments.operands else []
    (arguments.configPath?.getD defaultConfigPath :: arguments.inputPath :: audited).filter
      (!·.isEmpty)

/-- The paths that settings name: the vocabulary, the parameter sets and the ledgers. -/
def settingsPaths (settings : Settings) : List Text :=
  [settings.vocabulary.file, settings.resolver.parameterSetsFile,
    settings.ledger.outputDirectory].filter (!·.isEmpty)

/-- The paths that the settings of a run name, its settings file being on the disk. -/
def configuredPaths (words : List Text) (disk : Disk) : List Text :=
  match Arguments.ofWords words with
  | .error _ => []
  | .ok arguments =>
    match (loadSettings arguments disk).1 with
    | .error _ => []
    | .ok settings => settingsPaths settings

end TradeReentry.Cli
