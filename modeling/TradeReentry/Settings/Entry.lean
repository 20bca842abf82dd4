import TradeReentry.Decimal.Numeral
import TradeReentry.Settings.Basic
import TradeReentry.Text.Integer

/-!
The entries of a settings file: how each is named, which kind of value it takes and which field of
the settings it stands for.
-/

namespace TradeReentry

namespace Text

/-- A text without the quotes around it: both ends have to be the same quote. -/
def unquote (t : Text) : Text :=
  match t with
  | [] => []
  | c :: rest =>
    if (c = Ascii.singleQuote || c = Ascii.doubleQuote) && rest.getLast? = some c then rest.dropLast
    else t

end Text

namespace Settings

/-- The kinds of values that an entry takes. -/
inductive Kind where
  | flag
  | number
  | integer
  | text
  | list
deriving DecidableEq, Repr

/-- The values of a kind. -/
abbrev Kind.Value : Kind → Type
  | .flag => Bool
  | .number => Binary64
  | .integer => Int
  | .text => Text
  | .list => List Text

/-- A flag in one of its spellings, in any case. -/
def readFlag? (t : Text) : Option Bool :=
  let t := Text.toLower t
  if t = "true" ∨ t = "1" ∨ t = "yes" then some true
  else if t = "false" ∨ t = "0" ∨ t = "no" then some false
  else none

/-- The items between brackets and commas, each trimmed and unquoted; empty ones do not count. -/
def readList? (t : Text) : Option (List Text) :=
  match t.trim with
  | c :: rest =>
    if c = Ascii.openBracket && rest.getLast? = some Ascii.closeBracket then
      let pieces := Text.splitOn Ascii.comma rest.dropLast
      some <| (pieces.map fun piece => Text.trim (Text.unquote (Text.trim piece))).filter
        (!·.isEmpty)
    else none
  | [] => none

/-- The value of a kind that a text spells, if any. -/
def Kind.read? : (kind : Kind) → Text → Option kind.Value
  | .flag, t => readFlag? t
  | .number, t => Binary64.ofPlain? t
  | .integer, t => Text.toInt32? t
  | .text, t => some (Text.unquote t)
  | .list, t => readList? t

/-- A field of the settings and the path that names it in a file. -/
structure Entry where
  path : Text
  kind : Kind
  get : Settings → kind.Value
  put : kind.Value → Settings → Settings

def vocabularyEntries : List Entry := [
  ⟨"vocabulary.file", .text, (·.vocabulary.file),
    fun v s => { s with vocabulary.file := v }⟩,
  ⟨"vocabulary.require_file", .flag, (·.vocabulary.requireFile),
    fun v s => { s with vocabulary.requireFile := v }⟩]

def resolverEntries : List Entry := [
  ⟨"resolver.parameter_sets_file", .text, (·.resolver.parameterSetsFile),
    fun v s => { s with resolver.parameterSetsFile := v }⟩,
  ⟨"resolver.tier_hierarchy", .list, (·.resolver.tierHierarchy),
    fun v s => { s with resolver.tierHierarchy := v }⟩,
  ⟨"resolver.use_defaults_if_missing", .flag, (·.resolver.useDefaultsIfMissing),
    fun v s => { s with resolver.useDefaultsIfMissing := v }⟩]

def processorEntries : List Entry := [
  ⟨"processor.process_completed_trades_only", .flag, (·.processor.completedTradesOnly),
    fun v s => { s with processor.completedTradesOnly := v }⟩,
  ⟨"processor.min_trade_duration_minutes", .number, (·.processor.minTradeDurationMinutes),
    fun v s => { s with processor.minTradeDurationMinutes := v }⟩,
  ⟨"processor.exclude_manual_closes", .flag, (·.processor.excludeManualCloses),
    fun v s => { s with processor.excludeManualCloses := v }⟩,
  ⟨"processor.reentry_cooldown_minutes", .integer, (·.processor.cooldownMinutes),
    fun v s => { s with processor.cooldownMinutes := v }⟩,
  ⟨"processor.max_reentry_attempts_per_day", .integer, (·.processor.maxAttemptsPerDay),
    fun v s => { s with processor.maxAttemptsPerDay := v }⟩,
  ⟨"processor.profit_threshold_pips", .number, (·.processor.profitThresholdPips),
    fun v s => { s with processor.profitThresholdPips := v }⟩,
  ⟨"processor.loss_threshold_pips", .number, (·.processor.lossThresholdPips),
    fun v s => { s with processor.lossThresholdPips := v }⟩,
  ⟨"processor.flash_duration_max_minutes", .number, (·.processor.flashMaxMinutes),
    fun v s => { s with processor.flashMaxMinutes := v }⟩,
  ⟨"processor.quick_duration_max_minutes", .number, (·.processor.quickMaxMinutes),
    fun v s => { s with processor.quickMaxMinutes := v }⟩,
  ⟨"processor.long_duration_max_minutes", .number, (·.processor.longMaxMinutes),
    fun v s => { s with processor.longMaxMinutes := v }⟩,
  ⟨"processor.lot_step", .number, (·.processor.lotStep),
    fun v s => { s with processor.lotStep := v }⟩,
  ⟨"processor.confidence_specificity_weight", .number, (·.processor.specificityWeight),
    fun v s => { s with processor.specificityWeight := v }⟩,
  ⟨"processor.confidence_win_bonus", .number, (·.processor.winBonus),
    fun v s => { s with processor.winBonus := v }⟩,
  ⟨"processor.confidence_loss_penalty", .number, (·.processor.lossPenalty),
    fun v s => { s with processor.lossPenalty := v }⟩,
  ⟨"processor.confidence_generation_penalty", .number, (·.processor.generationPenalty),
    fun v s => { s with processor.generationPenalty := v }⟩,
  ⟨"processor.recent_decisions_capacity", .integer, (·.processor.recentCapacity),
    fun v s => { s with processor.recentCapacity := v }⟩]

def ledgerEntries : List Entry := [
  ⟨"ledger.enabled", .flag, (·.ledger.enabled),
    fun v s => { s with ledger.enabled := v }⟩,
  ⟨"ledger.output_directory", .text, (·.ledger.outputDirectory),
    fun v s => { s with ledger.outputDirectory := v }⟩,
  ⟨"ledger.rotation_hours", .integer, (·.ledger.rotationHours),
    fun v s => { s with ledger.rotationHours := v }⟩,
  ⟨"ledger.max_file_size_mb", .integer, (·.ledger.maxFileSizeMb),
    fun v s => { s with ledger.maxFileSizeMb := v }⟩]

def serviceEntries : List Entry := [
  ⟨"service.name", .text, (·.service.name),
    fun v s => { s with service.name := v }⟩,
  ⟨"service.worker_threads", .integer, (·.service.workerThreads),
    fun v s => { s with service.workerThreads := v }⟩]

/-- Every entry that a file may hold, apart from the lot steps of single symbols. -/
def entries : List Entry :=
  vocabularyEntries ++ resolverEntries ++ processorEntries ++ ledgerEntries ++ serviceEntries

end Settings

end TradeReentry
