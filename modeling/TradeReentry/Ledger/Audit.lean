import TradeReentry.Csv
import TradeReentry.Files.Disk
import TradeReentry.Ledger.FileName
import TradeReentry.Ledger.Row
import TradeReentry.Text.Integer

/-!
Auditing ledger files without the ledger that wrote them.

An audit reads a file, takes the schema from its name or, where the name tells none, from its own
header, and lists every issue: of the header, of the shape and the cells of each row, of checksums
and of the order of the sequence numbers. A file passes if it has no issue.
-/

namespace TradeReentry.Audit

inductive IssueKind where
  | unreadable
  | fileName
  | header
  | shape
  | cell
  | checksumFormat
  | checksumMismatch
  | sequence
deriving DecidableEq, Repr

def IssueKind.name : IssueKind → Text
  | .unreadable => "IO"
  | .fileName => "FileName"
  | .header => "Header"
  | .shape => "Shape"
  | .cell => "FieldType"
  | .checksumFormat => "ChecksumFormat"
  | .checksumMismatch => "ChecksumMismatch"
  | .sequence => "SequenceViolation"

/-- An issue of a row, counted from 1 after the header, or of the whole file as row 0; the column is
empty where none is to blame. -/
structure Issue where
  kind : IssueKind
  row : Nat
  column : Text
  message : Text
deriving DecidableEq, Repr

structure Report where
  path : Text
  recordType : Text := []
  passed : Bool := false
  totalRows : Nat := 0
  validRows : Nat := 0
  invalidRows : Nat := 0
  firstSequence? : Option UInt64 := none
  lastSequence? : Option UInt64 := none
  issues : List Issue := []
deriving DecidableEq, Repr

/-! ## The header -/

/-- The names that stand at least twice, in the order in which they stand for the second time. -/
def repeatedNames (seen : NameMap Nat) : List Text → List Text
  | [] => []
  | name :: rest =>
    let seen' := seen.modify name 0 (· + 1)
    if seen.find? name = some 1 then name :: repeatedNames seen' rest else repeatedNames seen' rest

/-- The issues of a header. Unknown columns and the order matter only where the schema is known by
its record type. -/
def headerIssues (header : List Text) (schema : Schema) (isDeclared : Bool) : List Issue :=
  let unknown := header.filter fun name => (schema.column? name).isNone
  (repeatedNames .empty header).map (⟨.header, 0, ·, "表头列重复"⟩) ++
    (schema.header.filter (!header.contains ·)).map (⟨.header, 0, ·, "表头缺少列"⟩) ++
    if isDeclared then
      unknown.map (⟨.header, 0, ·, "表头包含未声明列"⟩) ++
        if unknown = [] ∧ header.length = schema.columns.length ∧ header ≠ schema.header then
          [⟨.header, 0, [], "表头列顺序与记录结构不一致"⟩]
        else []
    else []

/-! ## Rows -/

/-- The cells of a row by the names of their columns; of two columns of one name the first counts. -/
def rowOf (header cells : List Text) : Row :=
  (header.zip cells).foldl
    (fun row (name, cell) => if row.contains name then row else row.insert name cell) .empty

/-- The issue of the cell of a column, if it has one. -/
def cellIssues (row : Row) (number : Nat) (column : Column) : List Issue :=
  match row.find? column.name with
  | none => []
  | some cell =>
    if column.kind = .checksum then
      if Cell.isChecksum cell then []
      else [⟨.checksumFormat, number, column.name, "校验和不是 64 位小写十六进制"⟩]
    else
      match Cell.check column cell with
      | .ok () => []
      | .error e => [⟨.cell, number, column.name, e.message⟩]

/-- The issue of a well-formed checksum that is not that of the row. -/
def checksumIssues (row : Row) (number : Nat) : List Issue :=
  match row.find? Schema.checksumName with
  | some cell =>
    if Cell.isChecksum cell && !row.isVerified then
      [⟨.checksumMismatch, number, Schema.checksumName, "校验和与行内容不一致"⟩]
    else []
  | none => []

/-- The number of a sequence cell, which has to be read whole. -/
def sequence? (row : Row) : Option UInt64 :=
  match row.find? Schema.sequenceName with
  | none => none
  | some cell =>
    if cell.head? = some Ascii.minus then none
    else
      match Text.takeUInt64? cell with
      | some (sequence, []) => some sequence
      | _ => none

/-- The issue of a sequence number that does not follow the latest one before it. -/
def sequenceIssues (previous? current? : Option UInt64) (number : Nat) : List Issue :=
  match previous?, current? with
  | some previous, some current =>
    if current ≤ previous then
      [⟨.sequence, number, Schema.sequenceName,
        "file_seq 未严格递增: " ++ Text.ofNat previous.toNat ++ " -> " ++
          Text.ofNat current.toNat⟩]
    else []
  | _, _ => []

/-- The issues of a row of the right shape, given the latest sequence number before it. -/
def contentIssues (schema : Schema) (row : Row) (number : Nat) (previous? : Option UInt64) :
    List Issue :=
  schema.columns.flatMap (cellIssues row number) ++ checksumIssues row number ++
    sequenceIssues previous? (sequence? row) number

/-- What the audit of a row finds: its issues, and its sequence number if it has the right shape. -/
structure Finding where
  issues : List Issue
  sequence? : Option UInt64 := none
deriving DecidableEq, Repr

/-- Audits a row with a number, given the latest sequence number before it. -/
def auditRow (header : List Text) (schema : Schema) (previous? : Option UInt64) (number : Nat)
    (cells : List Text) : Finding :=
  if cells = header then { issues := [⟨.shape, number, [], "重复表头行"⟩] }
  else if cells.length ≠ header.length then
    { issues := [⟨.shape, number, [], "列数 " ++ Text.ofNat cells.length ++ " 与表头 " ++
        Text.ofNat header.length ++ " 不一致"⟩] }
  else
    let row := rowOf header cells
    { issues := contentIssues schema row number previous?, sequence? := sequence? row }

/-- Audits rows in order, the first having a number, and adds to the findings so far, of which the
latest comes first. -/
def auditRows (header : List Text) (schema : Schema) (previous? : Option UInt64) (number : Nat)
    (found : List Finding) : List (List Text) → List Finding
  | [] => found.reverse
  | cells :: rest =>
    let finding := auditRow header schema previous? number cells
    auditRows header schema (finding.sequence?.or previous?) (number + 1) (finding :: found) rest

/-- The report of findings under a header with issues. -/
def Report.ofFindings (path recordType : Text) (issues : List Issue) (found : List Finding) :
    Report :=
  let issues := issues ++ found.flatMap (·.issues)
  let sequences := found.filterMap (·.sequence?)
  { path, recordType, issues
    passed := issues.isEmpty
    totalRows := found.length
    validRows := found.countP (·.issues.isEmpty)
    invalidRows := found.countP (!·.issues.isEmpty)
    firstSequence? := sequences.head?
    lastSequence? := sequences.getLast? }

/-! ## Files -/

/-- The report of a whole text that cannot be audited row by row. -/
def Report.refused (path recordType : Text) (kind : IssueKind) (message : Text) : Report :=
  { path, recordType, issues := [⟨kind, 0, [], message⟩] }

/-- Audits a text under a schema, or under that of its own header. -/
def ofText (path text : Text) (schema? : Option Schema) : Report :=
  let recordType := (schema?.map (·.recordType)).getD []
  match Csv.decode text with
  | .error e => .refused path recordType .shape e.message
  | .ok [] => .refused path recordType .header "文件为空，缺少表头"
  | .ok (header :: rows) =>
    let schema := schema?.getD (.ofHeader header)
    .ofFindings path recordType (headerIssues header schema schema?.isSome)
      (auditRows header schema none 1 [] rows)

/-- The issue of a file name that tells no record type. -/
def fileNameIssue (name : Text) : Issue :=
  ⟨.fileName, 0, [], "文件名不符合 <record_type>_<YYYYMMDD>_<HHMMSS>.csv: " ++ name⟩

/-- Audits a file under a schema. -/
def ofFileAs (disk : Disk) (path : Text) (schema : Schema) : Report :=
  match disk.file? path with
  | none => .refused path schema.recordType .unreadable ("无法读取文件: " ++ path)
  | some text => ofText path text schema

/-- Audits a file under the schema that its name tells. -/
def ofFile (disk : Disk) (path : Text) : Report :=
  let name := Files.Path.fileName path
  let recordType? := Ledger.FileName.recordType? name
  match disk.file? path with
  | none => .refused path (recordType?.getD []) .unreadable ("无法读取文件: " ++ path)
  | some text =>
    let report := ofText path text (recordType?.bind Schema.find?)
    match recordType? with
    | some recordType => { report with recordType }
    | none => { report with passed := false, issues := report.issues ++ [fileNameIssue name] }

/-- Audits the files of a directory with the extension `.csv`, in the byte order of their paths. -/
def ofDirectory (disk : Disk) (directory : Text) : List Report :=
  match disk.fileNames directory with
  | .error cause =>
    [.refused directory [] .unreadable
      ("无法打开目录: " ++ directory ++ " (" ++ cause.message ++ ")")]
  | .ok names =>
    let paths := (names.filter Files.Path.hasCsvExtension).map (Files.Path.join directory)
    (paths.mergeSort (· ≤ ·)).map (ofFile disk)

/-! ## Texts -/

/-- The row and the column of an issue, as far as it has them. -/
def Issue.place (issue : Issue) : Text :=
  let row : Text := if issue.row = 0 then [] else " row=" ++ Text.ofNat issue.row
  let column : Text := if issue.column.isEmpty then [] else " field=" ++ issue.column
  row ++ column

/-- The line of an issue. -/
def Issue.line (issue : Issue) : Text :=
  "  [" ++ issue.kind.name ++ "]" ++ issue.place ++ " " ++ issue.message ++ "\n"

/-- The first and the last sequence number of a report that has them. -/
def Report.sequenceText (report : Report) : Text :=
  match report.firstSequence?, report.lastSequence? with
  | some first, some last =>
    " file_seq=" ++ Text.ofNat first.toNat ++ ".." ++ Text.ofNat last.toNat
  | _, _ => []

/-- A report for people: a summary and a line for each issue. -/
def Report.text (report : Report) : Text :=
  let verdict : Text := if report.passed then "PASS" else "FAIL"
  let recordType : Text := if report.recordType.isEmpty then "-" else report.recordType
  verdict ++ " " ++ report.path ++ " record_type=" ++ recordType ++ " rows=" ++
    Text.ofNat report.totalRows ++ " valid=" ++ Text.ofNat report.validRows ++ " invalid=" ++
    Text.ofNat report.invalidRows ++ report.sequenceText ++ "\n" ++
    report.issues.flatMap Issue.line

end TradeReentry.Audit
