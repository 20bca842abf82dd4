import TradeReentry.Csv
import TradeReentry.Decimal.Numeral
import TradeReentry.Decision.Context
import TradeReentry.Files.Disk
import TradeReentry.Text.Integer

/-!
Files of closed trades: a header that names columns, in any order, and a context on each row.
-/

namespace TradeReentry.Cli.Batch

/-- Why a file gives no contexts. -/
inductive BatchError where
  | unreadable (path : Text)
  | unclosedQuotes (error : Csv.Unclosed)
  | missingHeader (path : Text)
  | width (row : Nat)
  | unknownColumn (name : Text)
  | invalidValue (row : Nat) (column value : Text)
deriving DecidableEq, Repr

def rowName (row : Nat) : Text := "第 " ++ Text.ofNat row ++ " 行"

def BatchError.message : BatchError → Text
  | .unreadable path => "无法读取输入文件: " ++ path
  | .unclosedQuotes error => error.message
  | .missingHeader path => "输入文件缺少表头: " ++ path
  | .width row => rowName row ++ " 列数与表头不一致"
  | .unknownColumn name => "未知列: " ++ name
  | .invalidValue row column value =>
    rowName row ++ " 字段 " ++ column ++ " 非法: " ++ value

/-- A flag in one of its spellings. -/
def readFlag? (t : Text) : Option Bool :=
  if t = "true" ∨ t = "1" then some true else if t = "false" ∨ t = "0" then some false else none

/-- The columns: each sets a field of a context from a cell, if the cell has a value. -/
def columns : List (Text × (Text → Context → Option Context)) := [
  ("trade_id", fun v c => some { c with tradeId := v }),
  ("symbol", fun v c => some { c with symbol := v }),
  ("direction", fun v c => some { c with direction := v }),
  ("generation", fun v c => (Text.toInt32? v).map fun n => { c with generation := n }),
  ("current_lot_size", fun v c => (Binary64.ofText? v).map fun x => { c with lotSize := x }),
  ("lot_size", fun v c => (Binary64.ofText? v).map fun x => { c with lotSize := x }),
  ("profit_loss_pips", fun v c =>
    (Binary64.ofText? v).map fun x => { c with profitLossPips := x }),
  ("duration_minutes", fun v c =>
    (Binary64.ofText? v).map fun x => { c with durationMinutes := x }),
  ("trade_closed", fun v c => (readFlag? v).map fun b => { c with tradeClosed := b }),
  ("close_reason", fun v c => some { c with closeReason := v }),
  ("proximity_state", fun v c => some { c with proximityState := v }),
  ("calendar_id", fun v c => some { c with calendarId := v }),
  ("comment", fun v c => some { c with comment := v })]

/-- Sets the fields of a context from the cells of a row, column by column. -/
def readCells (row : Nat) (context : Context) : List (Text × Text) → Except BatchError Context
  | [] => .ok context
  | (name, cell) :: rest =>
    match columns.find? (·.1 = name) with
    | none => .error (.unknownColumn name)
    | some (_, set) =>
      match set cell context with
      | none => .error (.invalidValue row name cell)
      | some context => readCells row context rest

/-- Reads rows in order, the first having a number. -/
def readRows (header : List Text) (row : Nat) : List (List Text) → Except BatchError (List Context)
  | [] => .ok []
  | cells :: rest =>
    if cells.length ≠ header.length then .error (.width row)
    else
      match readCells row {} (header.zip cells) with
      | .error e => .error e
      | .ok context => (readRows header (row + 1) rest).map (context :: ·)

/-- The contexts of a file. -/
def ofFile (disk : Disk) (path : Text) : Except BatchError (List Context) :=
  match disk.file? path with
  | none => .error (.unreadable path)
  | some text =>
    match Csv.decode text with
    | .error e => .error (.unclosedQuotes e)
    | .ok [] => .error (.missingHeader path)
    | .ok (header :: rows) => readRows header 1 rows

end TradeReentry.Cli.Batch
