import TradeReentry.Proofs.Csv
import TradeReentry.Proofs.Ledger.Payloads
import TradeReentry.Proofs.Ledger.Reports

/-!
# Edits of a file that passes

Another cell in a row that is acceptable makes a row that is not (`Acceptable.not_set`): in the column of the
checksum because the covered text stays what it was, in any other because the stored checksum does. An audit
of the file with the edited row therefore finds an issue of that row (`caught_of_edit`).
-/

namespace TradeReentry

/-- Whether two texts that differ have different digests. -/
def Digest.Sha256.Separates (t u : Text) : Prop := t ≠ u → digest t ≠ digest u

namespace Audit

open Digest

variable {schema : Schema} {header cells : List Text} {column : Nat}

/-! ## Rows -/

/-- A row with another cell in a column. -/
theorem rowOf_set (hnodup : header.Nodup) (hlength : cells.length = header.length)
    (hcolumn : column < header.length) (cell : Text) :
    rowOf header (cells.set column cell) = (rowOf header cells).insert header[column] cell := by
  apply NameMap.ext_find?
  intro name
  rw [NameMap.find?_insert, find?_rowOf, find?_rowOf]
  induction header generalizing cells column with
  | nil => simp at hcolumn
  | cons first rest ih =>
    cases cells with
    | nil => simp at hlength
    | cons held cells =>
      obtain ⟨hfirst, hrest⟩ := List.nodup_cons.1 hnodup
      cases column with
      | zero => by_cases hname : first = name <;> simp [NameMap.lookup, hname]
      | succ column =>
        have hcolumn' : column < rest.length := Nat.lt_of_succ_lt_succ hcolumn
        have ih := ih hrest (Nat.succ.inj hlength) hcolumn'
        by_cases hname : first = name
        · have hne : rest[column] ≠ name := by
            rintro rfl
            exact hfirst (hname ▸ List.getElem_mem hcolumn')
          simp [NameMap.lookup, hname, hne]
        · simpa [NameMap.lookup, hname] using ih

theorem find?_rowOf_getElem (hnodup : header.Nodup) (hlength : cells.length = header.length)
    (hheader : column < header.length) (hcolumn : column < cells.length) :
    (rowOf header cells).find? header[column] = some cells[column] := by
  have hset := rowOf_set hnodup hlength hheader cells[column]
  rw [List.set_getElem_self] at hset
  rw [hset, NameMap.find?_insert, if_pos rfl]

/-- A row that is acceptable is not with another cell in one of its columns, as long as the digest separates
the texts that are covered. -/
theorem Acceptable.not_set (hs : schema.Standard) (h : Acceptable schema cells)
    (hcolumn : column < cells.length) {cell : Text} (hcell : cell ≠ cells[column])
    (hdigest : Sha256.Separates (rowOf schema.header (cells.set column cell)).payload
      (rowOf schema.header cells).payload) :
    ¬Acceptable schema (cells.set column cell) := by
  intro hset
  have hlength := h.length
  have hheader : column < schema.header.length := hlength ▸ hcolumn
  have hheld := find?_rowOf_getElem hs.nodup hlength hheader hcolumn
  have hchecksum := hset.checksum
  rw [rowOf_set hs.nodup hlength hheader] at hdigest hchecksum
  rw [NameMap.find?_insert] at hchecksum
  by_cases hname : schema.header[column] = Schema.checksumName
  · -- the checksum is that of the same text, and differs from the one that is held
    rw [hname] at hheld hchecksum
    rw [if_pos rfl, Row.checksum_insert, ← h.checksum, hheld] at hchecksum
    exact hcell (Option.some.inj hchecksum)
  · -- the checksum is held as before, and is that of another text
    rw [if_neg hname, h.checksum] at hchecksum
    have hhex := Option.some.inj hchecksum
    rw [Row.checksum, Row.checksum, Sha256.hex, Sha256.hex] at hhex
    exact hdigest (Row.payload_insert_ne hname hheld hcell) (Text.toHex_injective hhex).symm

/-! ## Files -/

/-- The reports of a file under a schema: that of an audit under the schema, and that of an audit under the
schema which the name of the file tells. -/
inductive IsReport (disk : Disk) (path : Text) (schema : Schema) : Report → Prop
  | named : IsReport disk path schema (ofFileAs disk path schema)
  | told (h : Ledger.FileName.recordType? (Files.Path.fileName path) = some schema.recordType) :
    IsReport disk path schema (ofFile disk path)

variable {disk : Disk} {path text : Text} {report : Report}

theorem IsReport.exists_file? (h : IsReport disk path schema report) (hpassed : report.passed = true) :
    ∃ text, disk.file? path = some text := by
  cases h with
  | named =>
    obtain ⟨text, hread, -⟩ := exists_ofText_of_ofFileAs hpassed
    exact ⟨text, hread⟩
  | told => exact exists_file?_of_passed hpassed

/-- The reports say the same of the text of the file. -/
theorem IsReport.eq_ofText (hs : schema.Standard) (h : IsReport disk path schema report)
    (hread : disk.file? path = some text) :
    report.passed = (ofText path text (some schema)).passed ∧
      report.issues = (ofText path text (some schema)).issues := by
  cases h with
  | named => simp [ofFileAs, hread]
  | told hpath => simp [ofFile_of_recordType? hs hpath hread]

/-- An edit of one cell in a file that passes is caught. Every audit of a file with the records of the first, a
cell of a row being another one, finds an issue of that row and does not pass, as long as the digest
separates the text that the checksum covers from the one that it covered before. -/
theorem caught_of_edit (hschema : schema ∈ Schema.builtin) (h : IsReport disk path schema report)
    (hpassed : report.passed = true) :
    ∃ text rows, disk.file? path = some text ∧ Csv.decode text = .ok (schema.header :: rows) ∧
      ∀ (row : Nat) (cells : List Text) (column : Nat) (held cell : Text),
        rows[row]? = some cells → cells[column]? = some held → cell ≠ held →
        Sha256.Separates (rowOf schema.header (cells.set column cell)).payload
          (rowOf schema.header cells).payload →
        ∀ (disk' : Disk) (path' : Text) (report' : Report), IsReport disk' path' schema report' →
          disk'.file? path' =
            some (Csv.encode (schema.header :: rows.set row (cells.set column cell))) →
          report'.passed = false ∧ ∃ issue ∈ report'.issues, issue.row = row + 1 := by
  have hs := Schema.standard_of_mem_builtin hschema
  obtain ⟨text, hread⟩ := h.exists_file? hpassed
  rw [(h.eq_ofText hs hread).1, ofText_passed_iff_acceptable hs] at hpassed
  obtain ⟨rows, hdecode, hrows, -⟩ := hpassed
  refine ⟨text, rows, hread, hdecode, ?_⟩
  intro row cells column held cell hcells hheld hcell hdigest disk' path' report' h' hread'
  obtain ⟨hrow, rfl⟩ := List.getElem?_eq_some_iff.1 hcells
  obtain ⟨hcolumn, rfl⟩ := List.getElem?_eq_some_iff.1 hheld
  have hrecord := hrows rows[row] (List.getElem_mem hrow)
  have hnot := mt (sound_iff_acceptable hs).1 (hrecord.not_set hs hcolumn hcell hdigest)
  have hlengths : ∀ record ∈ schema.header :: rows.set row (rows[row].set column cell),
      record.length = schema.header.length := by
    refine List.forall_mem_cons.2 ⟨rfl, fun record hmem => ?_⟩
    rcases List.mem_or_eq_of_mem_set hmem with hmem | rfl
    · exact (hrows record hmem).length
    · rw [List.length_set, hrecord.length]
  have hdecode' := Csv.decode_encode fun record hmem =>
    Ledger.not_blank_of_length hs.many (hlengths record hmem)
  rw [List.set_eq_take_append_cons_drop, if_pos hrow] at hdecode' hread'
  obtain ⟨issue, hissue, hissuerow⟩ := exists_issue_ofText hs hdecode' hnot
  obtain ⟨hpassed', hissues'⟩ := h'.eq_ofText hs hread'
  rw [← hissues'] at hissue
  rw [List.length_take, Nat.min_eq_left hrow.le] at hissuerow
  refine ⟨?_, issue, hissue, hissuerow⟩
  rw [hpassed', ← Bool.not_eq_true, (report_ofText ..).1, ← hissues']
  exact List.ne_nil_of_mem hissue

/-- The first record of the text that no ledger wrote. -/
def foreignRecord : List Text :=
  ["007", "986e34f15ab560d99e9ef6cc279fbfd7" ++ "e25ff543a6256f539ddef8f9bdb06dc5",
    "2026-01-15T09:00:00.000Z", "T,1", "H", "EURUSD", "WIN", "QUICK", "R1", "p", "GLOBAL", "O", "0.1", "20",
    "40"]

/-- The record with another symbol, which a table holds in quotes. -/
def editedRecord : List Text := foreignRecord.set 5 "EUR\"|\",\nUSD"

/-- A disk with the table that holds the edited record. -/
def editedDisk : Disk :=
  { working := .file "decisions.csv"
      (.ofText (Csv.encode (((Csv.decode foreignText).toOption.getD []).set 1 editedRecord))) .empty }

theorem caught_of_edit_editedDisk :
    (ofFileAs editedDisk "decisions.csv" Schema.reentryDecisions).passed = false ∧
      ∃ issue ∈ (ofFileAs editedDisk "decisions.csv" Schema.reentryDecisions).issues,
        issue.row = 1 := by
  have hbuiltin : Schema.reentryDecisions ∈ Schema.builtin := by decide
  obtain ⟨text, rows, hread, hdecode, hcaught⟩ :=
    caught_of_edit hbuiltin (.told (by decide +kernel)) passed_foreignDisk
  have hforeign : foreignDisk.file? "d/reentry_decisions_20260115_100000.csv" = some foreignText := by
    decide +kernel
  obtain rfl := Option.some.inj (hread.symm.trans hforeign)
  have hrecord : (Csv.decode foreignText).map (·[1]?) = .ok (some foreignRecord) := by decide +kernel
  have hedited : editedDisk.file? "decisions.csv" =
      some (Csv.encode (((Csv.decode foreignText).toOption.getD []).set 1 editedRecord)) := by
    decide +kernel
  have hdigest : Sha256.digest (rowOf Schema.reentryDecisions.header editedRecord).payload ≠
      Sha256.digest (rowOf Schema.reentryDecisions.header foreignRecord).payload := by
    decide +kernel
  rw [hdecode] at hrecord hedited
  exact hcaught 0 foreignRecord 5 "EURUSD" "EUR\"|\",\nUSD" (Except.ok.inj hrecord) (by decide) (by decide)
    (fun _ => hdigest) editedDisk "decisions.csv" _ .named hedited

end Audit

end TradeReentry
