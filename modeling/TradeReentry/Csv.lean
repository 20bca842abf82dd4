import TradeReentry.Text.Basic

/-!
Tables as texts with one record on a line and commas between cells.

A cell that holds a comma, a quote or a line end is written between quotes, a quote inside it twice.
Reading is a fold over the bytes, so that the reading of two texts after one another is one reading
after the other (`decodeFrom_append`). Blank lines are no records, and a line may end in a carriage
return.
-/

namespace TradeReentry.Csv

/-! ## Writing -/

/-- Whether a byte makes quotes necessary. -/
def isSpecial (c : UInt8) : Bool :=
  c = Ascii.comma || c = Ascii.doubleQuote || c = Ascii.carriageReturn || c = Ascii.newline

/-- The written form of a byte between quotes. -/
def doubleQuotes (c : UInt8) : Text :=
  if c = Ascii.doubleQuote then [Ascii.doubleQuote, Ascii.doubleQuote] else [c]

def encodeCell (cell : Text) : Text :=
  if cell.any isSpecial then
    Ascii.doubleQuote :: cell.flatMap doubleQuotes ++ [Ascii.doubleQuote]
  else cell

/-- The line of a record, without its end. -/
def encodeRecord (cells : List Text) : Text := Text.join "," (cells.map encodeCell)

/-! ## Reading -/

/-- Where in a cell the next byte stands. -/
inductive Mode where
  /-- Outside quotes. -/
  | plain
  /-- Between quotes. -/
  | quoted
  /-- After a quote between quotes, which ends them or is the first of two. -/
  | quoteSeen
  /-- After a carriage return outside quotes, which belongs to a line end or to the cell. -/
  | returnSeen
deriving DecidableEq, Repr

/-- What was read: the finished records, the finished cells of the open record and the bytes of the
open cell, each with the latest first; whether the open cell had quotes, and the number of the
line. -/
structure Progress where
  records : List (List Text) := []
  cells : List Text := []
  cell : Text := []
  cellQuoted : Bool := false
  mode : Mode := .plain
  line : Nat := 1
deriving DecidableEq, Repr

namespace Progress

def push (p : Progress) (c : UInt8) : Progress := { p with cell := c :: p.cell }

def endCell (p : Progress) : Progress :=
  { p with cells := p.cell.reverse :: p.cells, cell := [], cellQuoted := false }

/-- Whether the open record is a blank line. -/
def isBlank (p : Progress) : Bool := p.cells.isEmpty && p.cell.isEmpty && !p.cellQuoted

def endRecord (p : Progress) : Progress :=
  { p with
    records :=
      if p.isBlank then p.records else (p.cell.reverse :: p.cells).reverse :: p.records
    cells := [], cell := [], cellQuoted := false }

/-- Reads a byte outside quotes. Quotes open only at the start of a cell. -/
def plainByte (p : Progress) (c : UInt8) : Progress :=
  if c = Ascii.doubleQuote && p.cell.isEmpty && !p.cellQuoted then
    { p with mode := .quoted, cellQuoted := true }
  else if c = Ascii.comma then p.endCell
  else if c = Ascii.carriageReturn then { p with mode := .returnSeen }
  else if c = Ascii.newline then { p.endRecord with line := p.line + 1 }
  else p.push c

/-- Reads a byte. -/
def step (p : Progress) (c : UInt8) : Progress :=
  match p.mode with
  | .plain => p.plainByte c
  | .quoted =>
    if c = Ascii.doubleQuote then { p with mode := .quoteSeen }
    else { p.push c with line := if c = Ascii.newline then p.line + 1 else p.line }
  | .quoteSeen =>
    if c = Ascii.doubleQuote then { p.push c with mode := .quoted }
    else { p with mode := .plain }.plainByte c
  | .returnSeen =>
    if c = Ascii.newline then { p with mode := .plain }.plainByte c
    else ({ p with mode := .plain }.push Ascii.carriageReturn).plainByte c

end Progress

/-- Reads the bytes of a text in order. -/
def decodeFrom (p : Progress) (t : Text) : Progress := t.foldl Progress.step p

theorem decodeFrom_append (p : Progress) (t u : Text) :
    decodeFrom p (t ++ u) = decodeFrom (decodeFrom p t) u := List.foldl_append

/-- Quotes that are still open at the end of a text, in a line of it. -/
structure Unclosed where
  line : Nat
deriving DecidableEq, Repr

def Unclosed.message (e : Unclosed) : Text := "引号未闭合，行号: " ++ Text.ofNat e.line

/-- The records once the text has ended; its last line needs no end. -/
def Progress.finish (p : Progress) : Except Unclosed (List (List Text)) :=
  match p.mode with
  | .quoted => .error ⟨p.line⟩
  | .returnSeen => .ok (p.push Ascii.carriageReturn).endRecord.records.reverse
  | .plain | .quoteSeen => .ok p.endRecord.records.reverse

/-- The records of a text. -/
def decode (t : Text) : Except Unclosed (List (List Text)) := (decodeFrom {} t).finish

end TradeReentry.Csv
