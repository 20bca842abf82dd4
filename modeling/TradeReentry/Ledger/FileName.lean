import TradeReentry.Files.Path
import TradeReentry.Ledger.Schema
import TradeReentry.Time.Instant

/-!
The names of ledger files, `<record type>_<YYYYMMDD>_<HHMMSS>.csv`.
-/

namespace TradeReentry.Ledger.FileName

/-- The name of a file opened at an instant. -/
def ofInstant (recordType : Text) (now : Instant) : Text :=
  recordType ++ "_" ++ now.fileStamp ++ ".csv"

/-- Whether a text is `_YYYYMMDD_HHMMSS.csv`, with any digits. -/
def isStampSuffix (t : Text) : Bool :=
  t.take 1 = "_" && ((t.drop 1).take 8).all Ascii.isDigit && (t.drop 9).take 1 = "_" &&
    ((t.drop 10).take 6).all Ascii.isDigit && t.drop 16 = ".csv"

/-- The record type in the name of a ledger file, which has at least one byte. -/
def recordType? (name : Text) : Option Text :=
  if 20 < name.length && isStampSuffix (name.drop (name.length - 20)) then
    some (name.take (name.length - 20))
  else none

end TradeReentry.Ledger.FileName
