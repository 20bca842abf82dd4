import TradeReentry.Digest.Sha256
import TradeReentry.Ledger.Cell
import TradeReentry.Text.NameMap

/-!
Rows by column name, and the checksum that protects them.
-/

namespace TradeReentry

/-- The cells of a row by the names of their columns. -/
abbrev Row := NameMap Text

namespace Row

/-- The text that the checksum covers: all cells but the checksum, in the byte order of their
columns' names, with bars between them. -/
def payload (row : Row) : Text :=
  Text.join "|" ((row.entries.filter (·.1 ≠ Schema.checksumName)).map (·.2))

/-- The digest of the text that the checksum covers. -/
def checksum (row : Row) : Text := Digest.Sha256.hex row.payload

/-- Whether a row holds its own checksum. -/
def isVerified (row : Row) : Bool :=
  match row.find? Schema.checksumName with
  | some held => Cell.isChecksum held && row.checksum = held
  | none => false

end Row

end TradeReentry
