import TradeReentry.Csv
import TradeReentry.Files.Disk
import TradeReentry.Health
import TradeReentry.Ledger.FileName
import TradeReentry.Ledger.Row
import TradeReentry.Settings.Basic
import TradeReentry.Step
import TradeReentry.Text.Integer

/-!
The ledger that appends rows to files.

Each row gets the next sequence number, the time and a checksum. A file is opened at the first row
and again when it is too old or too large; one that already lies at the path is continued after its
highest sequence number. A new file is written under another name and then renamed, so that a reader
never sees a part of it. A row that is not written takes no number.
-/

namespace TradeReentry

/-- An open ledger. -/
structure Ledger where
  settings : LedgerSettings
  schema : Schema
  nextSequence : UInt64 := 1
  /-- The path of the file in use; empty before the first row. -/
  currentFile : Text := []
  startedAt : Instant := 0
  currentSize : Nat := 0
  writeFailures : Nat := 0
  lastWriteFailed : Bool := false
deriving DecidableEq, Repr

namespace Ledger

/-- Why a row is not written. -/
inductive WriteError where
  | missingField (name : Text)
  | undeclaredField (name : Text)
  | unreadable (path : Text)
  | unclosedQuotes (error : Csv.Unclosed)
  | headerMismatch (path : Text)
  | invalidSequence (path : Text) (row : Nat)
  | createTemporary (path : Text) (cause : Files.Refusal)
  | renameTemporary (path : Text) (cause : Files.Refusal)
  | openFile (path : Text) (cause : Files.Refusal)
deriving DecidableEq, Repr

def WriteError.message : WriteError → Text
  | .missingField name => "记录缺少字段: " ++ name
  | .undeclaredField name => "记录包含未声明字段: " ++ name
  | .unreadable path => "无法读取账本文件: " ++ path
  | .unclosedQuotes error => error.message
  | .headerMismatch path => "已有账本文件表头不匹配: " ++ path
  | .invalidSequence path row =>
    "已有账本文件 file_seq 非法: " ++ path ++ " 行 " ++ Text.ofNat row
  | .createTemporary path cause => "创建临时文件 失败: " ++ path ++ " (" ++ cause.message ++ ")"
  | .renameTemporary path cause => "重命名临时文件失败: " ++ path ++ " (" ++ cause.message ++ ")"
  | .openFile path cause => "打开账本文件 失败: " ++ path ++ " (" ++ cause.message ++ ")"

/-- What is known of a row that was written. -/
structure Receipt where
  sequence : UInt64
  checksum : Text
  path : Text
  timestamp : Text
deriving DecidableEq, Repr

/-! ## Preparing -/

/-- Why the directory of a ledger is not there. -/
structure PrepareError where
  directory : Text
  cause : Files.Refusal
deriving DecidableEq, Repr

def PrepareError.message (e : PrepareError) : Text :=
  "创建账本目录失败: " ++ e.directory ++ " (" ++ e.cause.message ++ ")"

/-- Makes the directory of the ledger. -/
def prepare (ledger : Ledger) (disk : Disk) : Step Disk (Except PrepareError Unit) :=
  let directory := ledger.settings.outputDirectory
  match disk.makeDirectories directory with
  | (disk, some cause) => { result := .error ⟨directory, cause⟩, state := disk }
  | (disk, none) =>
    { result := .ok (), state := disk
      log := [⟨.info, "LEDGER_READY: record_type=" ++ ledger.schema.recordType ++ " directory=" ++
        directory⟩] }

/-! ## Choosing the file -/

/-- The number of a sequence cell of a file that is continued; what follows it is not looked at. -/
def sequenceOf? (record : List Text) : Option UInt64 :=
  (record.head?.bind Text.takeUInt64?).map (·.1)

/-- The highest sequence number of records, the first of which is row `row`. -/
def highestSequence (path : Text) (row : Nat) (highest : UInt64) :
    List (List Text) → Except WriteError UInt64
  | [] => .ok highest
  | record :: rest =>
    match sequenceOf? record with
    | none => .error (.invalidSequence path row)
    | some sequence => highestSequence path (row + 1) (max highest sequence) rest

/-- Continues a file after its highest sequence number. -/
def adopt (ledger : Ledger) (path content : Text) :
    Except WriteError (Ledger × List Log.Entry) :=
  match Csv.decode content with
  | .error e => .error (.unclosedQuotes e)
  | .ok records =>
    if records.head? ≠ some ledger.schema.header then .error (.headerMismatch path)
    else
      match highestSequence path 1 0 records.tail with
      | .error e => .error e
      | .ok highest =>
        .ok ({ ledger with
            nextSequence :=
              if ledger.nextSequence ≤ highest then highest + 1 else ledger.nextSequence
            currentSize := content.length },
          [⟨.info, "LEDGER_RESUMED: file=" ++ path ++ " last_file_seq=" ++
            Text.ofNat highest.toNat⟩])

/-- The size from which a file is left, in bytes, as an unsigned 64-bit number. -/
def sizeLimit (ledger : Ledger) : Nat :=
  (ledger.settings.maxFileSizeMb * 2 ^ 20 % 2 ^ 64).toNat

/-- Whether the file in use is neither too old nor too large. -/
def keepsFile (ledger : Ledger) (now : Instant) : Bool :=
  !ledger.currentFile.isEmpty &&
    now - ledger.startedAt < ledger.settings.rotationHours * Instant.millisPerHour &&
    ledger.currentSize < ledger.sizeLimit

/-- The path of a file opened at an instant. -/
def pathAt (ledger : Ledger) (now : Instant) : Text :=
  Files.Path.join ledger.settings.outputDirectory
    (FileName.ofInstant ledger.schema.recordType now)

/-- Makes another file the one in use. -/
def moveTo (ledger : Ledger) (path : Text) (now : Instant) : Ledger × List Log.Entry :=
  ({ ledger with currentFile := path, startedAt := now },
    if ledger.currentFile.isEmpty then []
    else [⟨.info, "LEDGER_ROTATED: from=" ++ ledger.currentFile ++ " to=" ++ path⟩])

/-- The ledger with the file for a row at an instant. A file that cannot be left within the second
of its name is kept. -/
def chooseFile (ledger : Ledger) (disk : Disk) (now : Instant) :
    Except WriteError (Ledger × List Log.Entry) :=
  let path := ledger.pathAt now
  if ledger.keepsFile now || path = ledger.currentFile then .ok (ledger, [])
  else if disk.pathExists path then
    match disk.file? path with
    | none => .error (.unreadable path)
    | some content =>
      match ledger.adopt path content with
      | .error e => .error e
      | .ok (ledger, log) =>
        let (ledger, moved) := ledger.moveTo path now
        .ok (ledger, log ++ moved)
  else .ok ({ ledger with currentSize := 0 }.moveTo path now)

/-! ## Writing -/

/-- Refuses a row whose names are not exactly the business columns. A row that lacks none of them is
looked through for others only if it has more names. -/
def checkNames (schema : Schema) (row : Row) : Except WriteError Unit :=
  match schema.recordNames.find? (!row.contains ·) with
  | some name => .error (.missingField name)
  | none =>
    if row.size = schema.recordNames.length then .ok ()
    else
      match row.names.find? (!schema.recordNames.contains ·) with
      | some name => .error (.undeclaredField name)
      | none => .ok ()

/-- The row with its system columns. -/
def sealRow (row : Row) (sequence : UInt64) (now : Instant) : Row :=
  let stamped : Row := (row.insert Schema.sequenceName (Text.ofNat sequence.toNat)).insert
    Schema.timestampName now.isoText
  stamped.insert Schema.checksumName (Row.checksum stamped)

/-- The cells of a row in the order of the columns. -/
def cellsOf (schema : Schema) (row : Row) : List Text :=
  schema.header.map fun name => (row.find? name).getD []

/-- A record as a line of a file. -/
def lineOf (cells : List Text) : Text := Csv.encodeRecord cells ++ "\n"

/-- Adds a line to a file; one whose last line has no end gets it first. The new size is told. -/
def appendLine (disk : Disk) (path line : Text) : Except WriteError (Disk × Nat) :=
  match disk.lookup path with
  | .error cause => .error (.openFile path cause)
  | .ok (.directory _) => .error (.openFile path .isADirectory)
  | .ok (.file content) =>
    let data := if content.last?.any (· ≠ Ascii.newline) then Ascii.newline :: line else line
    match disk.append path data with
    | .error cause => .error (.openFile path cause)
    | .ok disk => .ok (disk, content.size + data.length)

/-- Creates a file whole, under another name at first. The new size is told. -/
def createFile (disk : Disk) (path content : Text) : Except WriteError (Disk × Nat) :=
  let temporary := path ++ ".tmp"
  match disk.create temporary content with
  | .error cause => .error (.createTemporary temporary cause)
  | .ok created =>
    match created.rename temporary path with
    | .error cause => .error (.renameTemporary temporary cause)
    | .ok disk => .ok (disk, content.length)

/-- Tells when the directory of a new file cannot be opened to have its names kept; the file is there
all the same. -/
def syncEntries (disk : Disk) (path : Text) : List Log.Entry :=
  let parent := Files.Path.parent path
  let directory : Text := if parent.isEmpty then "." else parent
  match disk.openDirectory directory with
  | .ok _ => []
  | .error cause =>
    [⟨.warn, "LEDGER_DIR_SYNC_FAILED: 打开目录 失败: " ++ directory ++ " (" ++ cause.message ++ ")"⟩]

/-- Writes a line to the file in use, which is created with a header where it is missing. -/
def writeLine (ledger : Ledger) (disk : Disk) (line : Text) :
    Except WriteError (Disk × Nat × List Log.Entry) :=
  let path := ledger.currentFile
  if disk.pathExists path then (appendLine disk path line).map fun (disk, size) => (disk, size, [])
  else
    (createFile disk path (lineOf ledger.schema.header ++ line)).map fun (disk, size) =>
      (disk, size, syncEntries disk path)

/-- The ledger after a row that was not written. -/
def countFailure (ledger : Ledger) : Ledger :=
  { ledger with writeFailures := ledger.writeFailures + 1, lastWriteFailed := true }

/-- Appends a row of business columns. -/
def append (ledger : Ledger) (disk : Disk) (now : Instant) (row : Row) :
    Step (Ledger × Disk) (Except WriteError Receipt) :=
  match checkNames ledger.schema row with
  | .error e => { result := .error e, state := (ledger, disk) }
  | .ok () =>
    match ledger.chooseFile disk now with
    | .error e =>
      { result := .error e, state := (ledger.countFailure, disk)
        log := [⟨.error, "LEDGER_WRITE_FAILED: record_type=" ++ ledger.schema.recordType ++
          " error=" ++ e.message⟩] }
    | .ok (ledger, log) =>
      let sequence := ledger.nextSequence
      let number := Text.ofNat sequence.toNat
      let row := sealRow row sequence now
      match ledger.writeLine disk (lineOf (cellsOf ledger.schema row)) with
      | .error e =>
        { result := .error e, state := (ledger.countFailure, disk)
          log := log ++ [⟨.error, "LEDGER_WRITE_FAILED: file=" ++ ledger.currentFile ++
            " file_seq=" ++ number ++ " error=" ++ e.message⟩] }
      | .ok (disk, size, warnings) =>
        let receipt : Receipt :=
          { sequence
            checksum := (row.find? Schema.checksumName).getD []
            path := ledger.currentFile
            timestamp := now.isoText }
        { result := .ok receipt
          state := ({ ledger with
              nextSequence := sequence + 1, currentSize := size, lastWriteFailed := false }, disk)
          log := log ++ warnings ++ [⟨.info, "LEDGER_APPEND: file=" ++ ledger.currentFile ++
            " file_seq=" ++ number ++ " checksum=" ++ receipt.checksum⟩] }

/-- Whether the file for a row is a directory. It is there, so that it is read to be continued, and
that is no failure of the row but ends the program. -/
def meetsDirectory (ledger : Ledger) (disk : Disk) (now : Instant) (row : Row) : Bool :=
  let path := ledger.pathAt now
  (checkNames ledger.schema row).isOk && !ledger.keepsFile now && path ≠ ledger.currentFile &&
    disk.isDirectory path

/-! ## Reports -/

/-- The number of the last row that was written, as an unsigned 64-bit number. -/
def lastSequence (ledger : Ledger) : UInt64 := ledger.nextSequence - 1

/-- A missing directory is unhealthy, and a failure of the last write is degraded. -/
def health (ledger : Ledger) (disk : Disk) : Health :=
  let directory := ledger.settings.outputDirectory
  if !disk.isDirectory directory then
    ⟨"ledger", .unhealthy, "output directory unavailable: " ++ directory⟩
  else if ledger.lastWriteFailed then
    ⟨"ledger", .degraded, "last write failed, write_failures=" ++ Text.ofNat ledger.writeFailures⟩
  else
    ⟨"ledger", .healthy, "last_file_seq=" ++ Text.ofNat ledger.lastSequence.toNat⟩

end Ledger

end TradeReentry
