import TradeReentry.Decimal.Numeral
import TradeReentry.Ledger.Schema
import TradeReentry.Time.Timestamp

/-!
Which texts the cells of a column may be.
-/

namespace TradeReentry.Cell

/-- Why a cell is refused. -/
inductive CellError where
  | missing
  | notChecksum
  | notTimestamp (cell : Text)
  | notInteger (cell : Text)
  | notDecimal (cell : Text)
deriving DecidableEq, Repr

def CellError.message : CellError → Text
  | .missing => "必填字段为空"
  | .notChecksum => "不是 64 位小写十六进制"
  | .notTimestamp cell => "不是 ISO-8601 时间: " ++ cell
  | .notInteger cell => "不是整数: " ++ cell
  | .notDecimal cell => "不是有限小数: " ++ cell

def isChecksumDigit (c : UInt8) : Bool := Ascii.isDigit c || (0x61 ≤ c && c ≤ 0x66)

/-- Whether a text is 64 lower-case hexadecimal digits. -/
def isChecksum (t : Text) : Bool := t.length = 64 && t.all isChecksumDigit

/-- Whether a text is decimal digits after an optional minus sign. -/
def isInteger (t : Text) : Bool :=
  Text.isNonemptyOf Ascii.isDigit (if t.head? = some Ascii.minus then t.tail else t)

/-- Whether a text is a numeral of a finite number in the range. -/
def isDecimal (t : Text) : Bool := (Binary64.ofText? t).isSome

/-- Accepts the cells of a column: an empty one where it is not required, and any other that is of
the column's kind. -/
def check (column : Column) (cell : Text) : Except CellError Unit :=
  if cell.isEmpty then if column.isRequired then .error .missing else .ok ()
  else
    match column.kind with
    | .text => .ok ()
    | .checksum => if isChecksum cell then .ok () else .error .notChecksum
    | .timestamp =>
      if Time.Timestamp.isTimestamp cell then .ok () else .error (.notTimestamp cell)
    | .integer => if isInteger cell then .ok () else .error (.notInteger cell)
    | .decimal => if isDecimal cell then .ok () else .error (.notDecimal cell)

end TradeReentry.Cell
