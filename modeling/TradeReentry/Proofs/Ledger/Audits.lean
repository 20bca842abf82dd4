import TradeReentry.Proofs.Ledger.Passing

/-!
# Auditing rows that a ledger wrote

A ledger that appends a row fills the system columns itself. An audit of such rows finds fault with a
business cell that is not of its column's kind and with sequence numbers that do not ascend, and with
nothing else (`ofFile_passed_iff`).
-/

namespace TradeReentry

namespace Schema

/-- Whether every business cell of a row is of its column's kind. -/
def Fits (schema : Schema) (row : Row) : Prop :=
  ∀ column ∈ schema.columns, column.name ∉ systemNames →
    Cell.check column ((row.find? column.name).getD []) = .ok ()

instance (schema : Schema) (row : Row) : Decidable (schema.Fits row) :=
  inferInstanceAs (Decidable (∀ column ∈ schema.columns, _))

end Schema

namespace Ledger

/-- A row that was written and what is known of it. -/
structure Entry where
  receipt : Receipt
  row : Row
deriving DecidableEq, Repr

namespace Entry

def cells (schema : Schema) (e : Entry) : List Text := e.receipt.cells schema e.row

/-- Whether the row has the columns of the schema and was sealed at an instant in the era. -/
def Genuine (schema : Schema) (e : Entry) : Prop :=
  checkNames schema e.row = .ok () ∧
    ∃ now : Instant, now.InEra ∧ e.receipt.timestamp = now.isoText ∧
      e.receipt.checksum =
        ((sealRow e.row e.receipt.sequence now).find? Schema.checksumName).getD []

theorem length_cells (schema : Schema) (e : Entry) :
    (e.cells schema).length = schema.header.length := by
  simp [cells, Receipt.cells]

theorem head?_cells {schema : Schema} (hs : schema.Standard) (e : Entry) :
    (e.cells schema).head? = some (Text.ofNat e.receipt.sequence.toNat) := by
  rw [cells, Receipt.cells, List.head?_map, hs.first]
  rfl

end Entry

end Ledger

namespace Audit

open Ledger Ascii

variable {schema : Schema} {e : Entry}

theorem sequence?_of_find? {row : Row} {sequence : UInt64}
    (h : row.find? Schema.sequenceName = some (Text.ofNat sequence.toNat)) :
    sequence? row = some sequence := by
  have hminus : (Text.ofNat sequence.toNat).head? ≠ some minus := by
    intro heq
    exact absurd (Text.isDigit_of_mem_ofNat (List.mem_of_mem_head? heq)) (by decide)
  simp [sequence?, h, hminus, Text.takeUInt64?_ofNat]

/-- The cells of a sealed row are of their kinds unless a business cell is not. -/
theorem check_sealRow (hs : schema.Standard) {now : Instant} (hera : now.InEra) (row : Row)
    (sequence : UInt64) {column : Column} (hcolumn : column ∈ schema.columns) :
    Cell.check column (((sealRow row sequence now).find? column.name).getD []) = .ok () ↔
      (column.name ∉ Schema.systemNames →
        Cell.check column ((row.find? column.name).getD []) = .ok ()) := by
  by_cases hname : column.name ∈ Schema.systemNames
  · simp only [hname, not_true, false_imp_iff, iff_true]
    have hmem := hs.system_of_name column hcolumn hname
    have hnames : Schema.checksumName ≠ Schema.sequenceName ∧
        Schema.timestampName ≠ Schema.sequenceName ∧
        Schema.timestampName ≠ Schema.checksumName := by decide
    simp only [Schema.systemColumns, List.mem_cons, List.not_mem_nil, or_false] at hmem
    rcases hmem with rfl | rfl | rfl
    · have hinteger : Cell.isInteger (Text.ofNat sequence.toNat) = true := by
        rw [Cell.isInteger, if_neg, Text.isNonemptyOf_ofNat]
        intro heq
        exact absurd (Text.isDigit_of_mem_ofNat (List.mem_of_mem_head? heq)) (by decide)
      simp [find?_sealRow, Cell.check, Text.ofNat_ne_nil, hinteger]
    · have hchecksum := isVerified_sealRow row sequence now
      rw [Row.isVerified] at hchecksum
      split at hchecksum
      · next held hheld =>
        rw [Bool.and_eq_true] at hchecksum
        rw [hheld, Option.getD_some, isChecksum_of_check rfl rfl]
        exact hchecksum.1
      · simp at hchecksum
    · have htimestamp := Instant.isTimestamp_isoText hera
      have hne : now.isoText ≠ [] := by
        rintro heq
        rw [heq] at htimestamp
        simp [Time.Timestamp.isTimestamp] at htimestamp
      simp [find?_sealRow, hnames, Cell.check, hne, htimestamp]
  · have hnot : column.name ≠ Schema.sequenceName ∧ column.name ≠ Schema.checksumName ∧
        column.name ≠ Schema.timestampName := by
      simpa [Schema.systemNames, Schema.systemColumns] using hname
    obtain ⟨h1, h2, h3⟩ := hnot
    rw [find?_sealRow, if_neg h1, if_neg h2, if_neg h3]
    simp [hname]

/-- The cells that were written give the sealed row back. -/
theorem exists_rowOf_cells (hs : schema.Standard) (he : e.Genuine schema) :
    ∃ now : Instant, now.InEra ∧
      rowOf schema.header (e.cells schema) = sealRow e.row e.receipt.sequence now := by
  obtain ⟨hrow, now, hera, htimestamp, hchecksum⟩ := he
  refine ⟨now, hera, ?_⟩
  rw [Entry.cells, ← cellsOf_sealRow rfl hchecksum htimestamp,
    rowOf_cellsOf hs.nodup (fun name => hs.name_mem_header) hrow]

/-- A row that was written is sound if its business cells are of their kinds. -/
theorem sound_cells_iff (hs : schema.Standard) (he : e.Genuine schema) :
    Sound schema (e.cells schema) ↔ schema.Fits e.row := by
  obtain ⟨now, hera, hrow⟩ := exists_rowOf_cells hs he
  have hchecks := forall₂_congr fun column (hcolumn : column ∈ schema.columns) =>
    check_sealRow hs hera e.row e.receipt.sequence hcolumn
  constructor
  · intro hsound
    have hfits := hsound.fits
    rw [hrow] at hfits
    exact hchecks.1 hfits
  · intro hfits
    refine ⟨e.length_cells schema, ?_, ?_⟩
    · rw [hrow]
      exact hchecks.2 hfits
    · rw [hrow, isVerified_sealRow]

theorem sequenceIn?_cells (hs : schema.Standard) (he : e.Genuine schema) :
    sequenceIn? schema (e.cells schema) = some e.receipt.sequence := by
  obtain ⟨now, hera, hrow⟩ := exists_rowOf_cells hs he
  rw [sequenceIn?, hrow]
  exact sequence?_of_find? (by rw [find?_sealRow, if_pos rfl])

/-- A file that holds rows which were written passes if their business cells are of their kinds and
their sequence numbers ascend. -/
theorem ofFile_passed_iff (hs : schema.Standard) {disk : Disk} {path t : Text}
    (hpath : FileName.recordType? (Files.Path.fileName path) = some schema.recordType)
    (hread : disk.file? path = some t) {entries : List Entry}
    (hentries : ∀ e ∈ entries, e.Genuine schema)
    (hdecode : Csv.decode t = .ok (schema.header :: entries.map (·.cells schema))) :
    (ofFile disk path).passed = true ↔
      (∀ e ∈ entries, schema.Fits e.row) ∧
        (entries.map (·.receipt.sequence)).IsChain (· < ·) := by
  have hsound : (∀ cells ∈ entries.map (·.cells schema), Sound schema cells) ↔
      ∀ e ∈ entries, schema.Fits e.row := by
    rw [List.forall_mem_map]
    exact forall₂_congr fun e he => sound_cells_iff hs (hentries e he)
  have hsequences : (entries.map (·.cells schema)).filterMap (sequenceIn? schema) =
      entries.map (·.receipt.sequence) := by
    rw [List.filterMap_map, ← List.filterMap_eq_map]
    exact List.filterMap_congr fun e he => sequenceIn?_cells hs (hentries e he)
  rw [ofFile_of_recordType? hs hpath hread]
  show (ofText path t (some schema)).passed = true ↔ _
  rw [ofText_passed_iff hs, hdecode, ← hsound, ← hsequences]
  simp

end Audit

end TradeReentry
