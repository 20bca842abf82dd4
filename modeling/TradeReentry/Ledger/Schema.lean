import TradeReentry.Text.Basic

/-!
The columns of a ledger file.

Three system columns come first: the sequence number of the row, its checksum and the time when it
was written. The business columns follow in the order of the schema.
-/

namespace TradeReentry

/-- The kinds of cells. -/
inductive CellKind where
  | integer
  | decimal
  | text
  | timestamp
  | checksum
deriving DecidableEq, Repr

def CellKind.name : CellKind → Text
  | .integer => "integer"
  | .decimal => "decimal"
  | .text => "text"
  | .timestamp => "timestamp"
  | .checksum => "checksum"

/-- A column; a cell may be empty only where it is not required. -/
structure Column where
  name : Text
  kind : CellKind
  isRequired : Bool
deriving DecidableEq, Repr

/-- A kind of record and its columns in order. -/
structure Schema where
  recordType : Text
  columns : List Column
deriving DecidableEq, Repr

namespace Schema

def sequenceName : Text := "file_seq"

def checksumName : Text := "checksum_sha256"

def timestampName : Text := "timestamp"

/-- The columns that the ledger fills itself. -/
def systemColumns : List Column := [
  ⟨sequenceName, .integer, true⟩, ⟨checksumName, .checksum, true⟩,
  ⟨timestampName, .timestamp, true⟩]

def systemNames : List Text := systemColumns.map (·.name)

def header (schema : Schema) : List Text := schema.columns.map (·.name)

def column? (schema : Schema) (name : Text) : Option Column :=
  schema.columns.find? (·.name = name)

/-- The names of the business columns. -/
def recordNames (schema : Schema) : List Text := schema.header.filter (!systemNames.contains ·)

/-- The decisions about re-entries. -/
def reentryDecisions : Schema where
  recordType := "reentry_decisions"
  columns := systemColumns ++ [
    ⟨"trade_id", .text, true⟩, ⟨"hybrid_id", .text, true⟩, ⟨"symbol", .text, true⟩,
    ⟨"outcome_class", .text, true⟩, ⟨"duration_class", .text, true⟩,
    ⟨"reentry_action", .text, true⟩, ⟨"parameter_set_id", .text, true⟩,
    ⟨"resolved_tier", .text, true⟩, ⟨"chain_position", .text, true⟩,
    ⟨"lot_size", .decimal, true⟩, ⟨"stop_loss", .decimal, true⟩,
    ⟨"take_profit", .decimal, true⟩]

/-- The results of closed trades. -/
def tradeResults : Schema where
  recordType := "trade_results"
  columns := systemColumns ++ [
    ⟨"trade_id", .text, true⟩, ⟨"symbol", .text, true⟩, ⟨"direction", .text, true⟩,
    ⟨"lot_size", .decimal, true⟩, ⟨"open_price", .decimal, true⟩,
    ⟨"close_price", .decimal, true⟩, ⟨"open_time", .timestamp, true⟩,
    ⟨"close_time", .timestamp, true⟩, ⟨"duration_minutes", .decimal, true⟩,
    ⟨"profit_loss", .decimal, true⟩, ⟨"profit_loss_pips", .decimal, true⟩,
    ⟨"stop_loss", .decimal, false⟩, ⟨"take_profit", .decimal, false⟩,
    ⟨"close_reason", .text, false⟩, ⟨"commission", .decimal, false⟩,
    ⟨"swap", .decimal, false⟩, ⟨"magic_number", .integer, false⟩,
    ⟨"comment", .text, false⟩]

/-- The schemas that are known by their record type. -/
def builtin : List Schema := [reentryDecisions, tradeResults]

def find? (recordType : Text) : Option Schema := builtin.find? (·.recordType = recordType)

/-- The schema of a file with an unknown record type: its own header, the system columns being what
they always are and all others optional texts. -/
def ofHeader (header : List Text) : Schema where
  recordType := "generic"
  columns := header.map fun name =>
    (systemColumns.find? (·.name = name)).getD ⟨name, .text, false⟩

end Schema

end TradeReentry
