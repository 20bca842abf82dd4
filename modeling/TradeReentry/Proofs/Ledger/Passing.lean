import Mathlib.Data.List.Chain
import Mathlib.Data.List.Perm.Subperm
import Mathlib.Tactic.Common
import TradeReentry.Proofs.Ledger.Names
import TradeReentry.Proofs.Ledger.Rows

/-!
# When an audit passes

A text passes under a built-in schema exactly if its first record is the header of the schema, its other
records are `Sound` and the sequence numbers of these records that an audit reads ascend
(`ofText_passed_iff`).
-/

namespace TradeReentry

namespace Schema

/-- What the built-in schemas have in common. -/
structure Standard (schema : Schema) : Prop where
  first : schema.header.head? = some sequenceName
  many : 2 ≤ schema.header.length
  nodup : schema.header.Nodup
  system : ∀ column ∈ systemColumns, column ∈ schema.columns
  system_of_name : ∀ column ∈ schema.columns, column.name ∈ systemNames → column ∈ systemColumns
  kind : ∀ column ∈ schema.columns, column.name ∉ systemNames → column.kind ≠ .checksum
  headerIssues : Audit.headerIssues schema.header schema true = []
  plain : Ledger.FileName.IsPlain schema.recordType
  named : schema.recordType ≠ []
  known : Schema.find? schema.recordType = some schema

theorem standard_of_mem_builtin {schema : Schema} (h : schema ∈ builtin) : schema.Standard := by
  have hplain := Ledger.FileName.isPlain_of_mem_builtin h
  simp only [builtin, List.mem_cons, List.not_mem_nil, or_false] at h
  rcases h with rfl | rfl
  · exact ⟨by decide, by decide, by decide, by decide, by decide, by decide, by decide, hplain,
      by decide, by decide⟩
  · exact ⟨by decide, by decide, by decide, by decide, by decide, by decide, by decide, hplain,
      by decide, by decide⟩

variable {schema : Schema}

theorem Standard.name_mem_header (h : schema.Standard) {name : Text} (hname : name ∈ systemNames) :
    name ∈ schema.header := by
  obtain ⟨column, hcolumn, rfl⟩ := List.mem_map.1 hname
  exact List.mem_map_of_mem (h.system column hcolumn)

/-- The only column of checksums is the one that the ledger fills. -/
theorem Standard.checksum (h : schema.Standard) {column : Column} (hcolumn : column ∈ schema.columns)
    (hkind : column.kind = .checksum) : column.name = checksumName ∧ column.isRequired = true := by
  by_cases hname : column.name ∈ systemNames
  · have hmem := h.system_of_name column hcolumn hname
    simp only [systemColumns, List.mem_cons, List.not_mem_nil, or_false] at hmem
    rcases hmem with rfl | rfl | rfl
    · simp at hkind
    · exact ⟨rfl, rfl⟩
    · simp at hkind
  · exact absurd hkind (h.kind column hcolumn hname)

end Schema

namespace Audit

variable {schema : Schema} {header cells : List Text} {number : Nat} {name : Text}

/-! ## The header -/

/-- A name that was seen is repeated, as long as none was seen twice. -/
theorem nodup_of_repeatedNames {names : List Text} {seen : NameMap Nat}
    (hseen : ∀ name count, seen.find? name = some count → count = 1)
    (h : repeatedNames seen names = []) : names.Nodup ∧ ∀ name ∈ names, seen.find? name = none := by
  induction names generalizing seen with
  | nil => simp
  | cons first rest ih =>
    rw [repeatedNames] at h
    split at h
    · simp at h
    next hfirst =>
    have hnone : seen.find? first = none := by
      cases hfind : seen.find? first with
      | none => rfl
      | some count => exact absurd (hseen first count hfind ▸ hfind) hfirst
    have hnext : ∀ name, (seen.modify first 0 (· + 1)).find? name =
        if first = name then some 1 else seen.find? name := by
      intro name
      rw [NameMap.modify, NameMap.find?_insert, hnone]
      rfl
    obtain ⟨hnodup, hrest⟩ := ih (fun name count hcount => by
      rw [hnext] at hcount
      split at hcount
      · exact (Option.some.inj hcount).symm
      · exact hseen name count hcount) h
    have hapart : ∀ name ∈ rest, first ≠ name ∧ seen.find? name = none := by
      intro name hname
      have hunseen := hrest name hname
      rw [hnext] at hunseen
      split at hunseen
      · simp at hunseen
      · next hne => exact ⟨hne, hunseen⟩
    refine ⟨List.nodup_cons.2 ⟨fun hmem => (hapart first hmem).1 rfl, hnodup⟩, ?_⟩
    exact List.forall_mem_cons.2 ⟨hnone, fun name hname => (hapart name hname).2⟩

/-- A header without issues is that of the schema. -/
theorem headerIssues_eq_nil_iff (hs : schema.Standard) :
    headerIssues header schema true = [] ↔ header = schema.header := by
  constructor
  · intro h
    simp only [headerIssues, if_true, List.append_eq_nil_iff, List.map_eq_nil_iff,
      List.filter_eq_nil_iff] at h
    obtain ⟨⟨hrepeated, hmissing⟩, hunknown, horder⟩ := h
    have hnodup : header.Nodup := (nodup_of_repeatedNames (by simp) hrepeated).1
    have hsubset : header ⊆ schema.header := by
      intro name hname
      have hknown := hunknown name hname
      rw [Option.isNone_iff_eq_none, Schema.column?, List.find?_eq_none] at hknown
      simp only [not_forall] at hknown
      obtain ⟨column, hcolumn, heq⟩ := hknown
      rw [not_not, decide_eq_true_eq] at heq
      exact heq ▸ List.mem_map_of_mem hcolumn
    have hsuperset : schema.header ⊆ header := by
      intro name hname
      simpa using hmissing name hname
    have hlength : header.length = schema.columns.length := by
      have hle := (List.Nodup.subperm hnodup hsubset).length_le
      have hge := (List.Nodup.subperm hs.nodup hsuperset).length_le
      simp only [Schema.header, List.length_map] at hle hge
      omega
    by_contra hne
    simp [hlength, hne] at horder
    exact absurd horder (by simpa using hunknown)
  · rintro rfl
    exact hs.headerIssues

/-! ## Rows -/

/-- What an audit asks of a row by itself: a cell of its column's kind in each column, and its own
checksum. -/
structure Sound (schema : Schema) (cells : List Text) : Prop where
  length : cells.length = schema.header.length
  fits : ∀ column ∈ schema.columns,
    Cell.check column (((rowOf schema.header cells).find? column.name).getD []) = .ok ()
  verified : (rowOf schema.header cells).isVerified = true

/-- The sequence number that an audit reads in a row. -/
def sequenceIn? (schema : Schema) (cells : List Text) : Option UInt64 :=
  sequence? (rowOf schema.header cells)

/-- Every name of a header holds a cell of a row as long as the header. -/
theorem exists_find?_rowOf (hlength : cells.length = header.length) (hname : name ∈ header) :
    ∃ cell, (rowOf header cells).find? name = some cell := by
  rw [find?_rowOf]
  induction header generalizing cells with
  | nil => simp at hname
  | cons first rest ih =>
    cases cells with
    | nil => simp at hlength
    | cons cell cells =>
      by_cases hfirst : first = name
      · exact ⟨cell, by simp [NameMap.lookup, hfirst]⟩
      · obtain ⟨held, hheld⟩ := ih (Nat.succ.inj hlength)
          ((List.mem_cons.1 hname).resolve_left (Ne.symm hfirst))
        exact ⟨held, by rw [← hheld]; simp [NameMap.lookup, hfirst]⟩

/-- The first name of a header holds the first cell. -/
theorem find?_rowOf_first (hfirst : header.head? = some name) :
    (rowOf header cells).find? name = cells.head? := by
  rw [find?_rowOf]
  cases header with
  | nil => simp at hfirst
  | cons first rest =>
    obtain rfl := Option.some.inj hfirst
    cases cells with
    | nil => rfl
    | cons cell cells => simp [NameMap.lookup]

theorem isChecksum_of_check {column : Column} {cell : Text} (hkind : column.kind = .checksum)
    (hrequired : column.isRequired = true) :
    Cell.check column cell = .ok () ↔ Cell.isChecksum cell = true := by
  cases cell with
  | nil => simp [Cell.check, hrequired, Cell.isChecksum]
  | cons c t =>
    rw [Cell.check, hkind]
    by_cases h : Cell.isChecksum (c :: t) = true
    · simp [h]
    · simp [h]

/-- A column has no issue in a row if it holds a cell of its kind. -/
theorem cellIssues_eq_nil_iff (hs : schema.Standard) (hlength : cells.length = schema.header.length)
    {column : Column} (hcolumn : column ∈ schema.columns) :
    cellIssues (rowOf schema.header cells) number column = [] ↔
      Cell.check column (((rowOf schema.header cells).find? column.name).getD []) = .ok () := by
  obtain ⟨cell, hcell⟩ := exists_find?_rowOf hlength (List.mem_map_of_mem hcolumn)
  simp only [cellIssues, hcell, Option.getD_some]
  by_cases hkind : column.kind = .checksum
  · rw [if_pos hkind, isChecksum_of_check hkind (hs.checksum hcolumn hkind).2]
    split <;> simp_all
  · rw [if_neg hkind]
    split <;> simp_all

/-- The cell of a column of the schema in a row whose cells are of their kinds. -/
theorem exists_cell (hlength : cells.length = schema.header.length)
    (hfits : ∀ column ∈ schema.columns,
      Cell.check column (((rowOf schema.header cells).find? column.name).getD []) = .ok ())
    {column : Column} (hcolumn : column ∈ schema.columns) :
    ∃ cell, (rowOf schema.header cells).find? column.name = some cell ∧ Cell.check column cell = .ok () := by
  obtain ⟨cell, hcell⟩ := exists_find?_rowOf hlength (List.mem_map_of_mem hcolumn)
  have hcheck := hfits column hcolumn
  rw [hcell, Option.getD_some] at hcheck
  exact ⟨cell, hcell, hcheck⟩

/-- The first cell of a sound row is an integer. -/
theorem Sound.first (hs : schema.Standard) (h : Sound schema cells) :
    ∃ cell, cells.head? = some cell ∧ Cell.isInteger cell = true := by
  have hmem : (⟨Schema.sequenceName, .integer, true⟩ : Column) ∈ schema.columns :=
    hs.system _ (by decide)
  obtain ⟨cell, hcell, hcheck⟩ := exists_cell h.length h.fits hmem
  refine ⟨cell, by rw [← find?_rowOf_first hs.first, hcell], ?_⟩
  rw [Cell.check] at hcheck
  split at hcheck
  · simp at hcheck
  · by_contra hinteger
    simp [hinteger] at hcheck

theorem Sound.ne_header (hs : schema.Standard) (h : Sound schema cells) : cells ≠ schema.header := by
  rintro rfl
  obtain ⟨cell, hcell, hinteger⟩ := h.first hs
  rw [hs.first, Option.some.injEq] at hcell
  subst hcell
  exact absurd hinteger (by decide)

theorem sequenceIssues_eq_nil_iff {previous? current? : Option UInt64} :
    sequenceIssues previous? current? number = [] ↔
      ∀ previous current, previous? = some previous → current? = some current → previous < current := by
  cases previous? with
  | none => simp [sequenceIssues]
  | some previous =>
    cases current? with
    | none => simp [sequenceIssues]
    | some current =>
      simp only [sequenceIssues, Option.some.injEq, ← UInt64.not_le]
      split <;> simp_all

/-- A row has no issue if it is sound and its sequence number follows the one before. -/
theorem issues_auditRow_eq_nil_iff (hs : schema.Standard) {previous? : Option UInt64} :
    (auditRow schema.header schema previous? number cells).issues = [] ↔ Sound schema cells ∧
      ∀ previous current, previous? = some previous → sequenceIn? schema cells = some current →
        previous < current := by
  rw [auditRow]
  split
  · next hheader =>
    simp only [List.cons_ne_nil, false_iff, not_and]
    intro hsound
    exact absurd hheader (hsound.ne_header hs)
  split
  · next hlength =>
    simp only [List.cons_ne_nil, false_iff, not_and]
    intro hsound
    exact absurd hsound.length hlength
  next hlength =>
  rw [not_not] at hlength
  simp only [contentIssues, List.append_eq_nil_iff, List.flatMap_eq_nil_iff, sequenceIssues_eq_nil_iff]
  refine and_congr ?_ Iff.rfl
  have hfits : (∀ column ∈ schema.columns, cellIssues (rowOf schema.header cells) number column = []) ↔
      ∀ column ∈ schema.columns,
        Cell.check column (((rowOf schema.header cells).find? column.name).getD []) = .ok () :=
    forall₂_congr fun column hcolumn => cellIssues_eq_nil_iff hs hlength hcolumn
  rw [hfits]
  have hchecksum : (∀ column ∈ schema.columns,
      Cell.check column (((rowOf schema.header cells).find? column.name).getD []) = .ok ()) →
        (checksumIssues (rowOf schema.header cells) number = [] ↔
          (rowOf schema.header cells).isVerified = true) := by
    intro hcells
    obtain ⟨held, hheld, hcheck⟩ := exists_cell hlength hcells
      (hs.system ⟨Schema.checksumName, .checksum, true⟩ (by decide))
    rw [isChecksum_of_check rfl rfl] at hcheck
    simp [checksumIssues, hheld, hcheck]
  constructor
  · rintro ⟨hcells, hissues⟩
    exact ⟨hlength, hcells, (hchecksum hcells).1 hissues⟩
  · intro hsound
    exact ⟨hsound.fits, (hchecksum hsound.fits).2 hsound.verified⟩

theorem sequence?_auditRow (hs : schema.Standard) (h : Sound schema cells) (previous? : Option UInt64) :
    (auditRow schema.header schema previous? number cells).sequence? = sequenceIn? schema cells := by
  rw [auditRow, if_neg (h.ne_header hs), if_neg (not_not.2 h.length)]
  rfl

/-! ## Texts -/

/-- Rows have no issue if each is sound and the sequence numbers in them ascend, from the one before. -/
theorem issues_auditRows_eq_nil_iff (hs : schema.Standard) {rows : List (List Text)}
    {previous? : Option UInt64} {found : List Finding} :
    (auditRows schema.header schema previous? number found rows).flatMap (·.issues) = [] ↔
      found.flatMap (·.issues) = [] ∧ (∀ cells ∈ rows, Sound schema cells) ∧
        (previous?.toList ++ rows.filterMap (sequenceIn? schema)).IsChain (· < ·) := by
  induction rows generalizing previous? number found with
  | nil => cases previous? <;> simp [auditRows, List.flatMap_eq_nil_iff]
  | cons cells rest ih =>
    rw [auditRows, ih, List.flatMap_cons, List.append_eq_nil_iff, issues_auditRow_eq_nil_iff hs,
      List.forall_mem_cons]
    by_cases hsound : Sound schema cells
    · rw [sequence?_auditRow hs hsound]
      cases hsequence : sequenceIn? schema cells with
      | none => simp [hsequence, hsound]
      | some current =>
        cases previous? with
        | none => simp [hsequence, hsound]
        | some previous => simp [hsequence, hsound]; tauto
    · simp [hsound]

theorem length_auditRows {previous? : Option UInt64} {found : List Finding} {rows : List (List Text)} :
    (auditRows header schema previous? number found rows).length = found.length + rows.length := by
  induction rows generalizing previous? number found with
  | nil => simp [auditRows]
  | cons cells rest ih =>
    rw [auditRows, ih]
    simp only [List.length_cons]
    omega

/-- A text passes if it holds the header and sound rows whose sequence numbers ascend. -/
theorem ofText_passed_iff (hs : schema.Standard) {path text : Text} :
    (ofText path text (some schema)).passed = true ↔
      ∃ rows, Csv.decode text = .ok (schema.header :: rows) ∧ (∀ cells ∈ rows, Sound schema cells) ∧
        (rows.filterMap (sequenceIn? schema)).IsChain (· < ·) := by
  rw [ofText]
  split
  · next h => simp [Report.refused, h]
  · next h => simp [Report.refused, h]
  next header rows h =>
  simp only [Option.getD_some, Option.isSome_some, Report.ofFindings, List.isEmpty_iff,
    List.append_eq_nil_iff, headerIssues_eq_nil_iff hs, h, Except.ok.injEq, List.cons.injEq]
  constructor
  · rintro ⟨rfl, hissues⟩
    obtain ⟨-, hsound, hchain⟩ := (issues_auditRows_eq_nil_iff hs).1 hissues
    exact ⟨rows, ⟨rfl, rfl⟩, hsound, hchain⟩
  · rintro ⟨rows', ⟨rfl, rfl⟩, hsound, hchain⟩
    exact ⟨rfl, (issues_auditRows_eq_nil_iff hs).2 ⟨rfl, hsound, hchain⟩⟩

/-- All rows of a text that passes are valid. -/
theorem validRows_of_passed {path text : Text} {schema? : Option Schema} {rows : List (List Text)}
    (hdecode : Csv.decode text = .ok (header :: rows)) (h : (ofText path text schema?).passed = true) :
    (ofText path text schema?).validRows = rows.length := by
  simp only [ofText, hdecode, Report.ofFindings, List.isEmpty_iff, List.append_eq_nil_iff,
    List.flatMap_eq_nil_iff] at h ⊢
  rw [List.countP_eq_length.2 fun finding hfinding => by simp [h.2 finding hfinding], length_auditRows]
  simp

/-! ## Files -/

/-- The report of a file whose name tells the schema. -/
theorem ofFile_of_recordType? (hs : schema.Standard) {disk : Disk} {path text : Text}
    (hpath : Ledger.FileName.recordType? (Files.Path.fileName path) = some schema.recordType)
    (hread : disk.file? path = some text) :
    ofFile disk path = { ofText path text (some schema) with recordType := schema.recordType } := by
  simp [ofFile, hpath, hread, hs.known]

/-- A file that passes was read. -/
theorem exists_file?_of_passed {disk : Disk} {path : Text} (h : (ofFile disk path).passed = true) :
    ∃ text, disk.file? path = some text := by
  rw [ofFile] at h
  split at h
  · simp [Report.refused] at h
  · next text hread => exact ⟨text, hread⟩

theorem exists_ofText_of_ofFileAs {disk : Disk} {path : Text}
    (h : (ofFileAs disk path schema).passed = true) :
    ∃ text, disk.file? path = some text ∧ (ofText path text (some schema)).passed = true := by
  rw [ofFileAs] at h
  split at h
  · simp [Report.refused] at h
  · next text hread => exact ⟨text, hread, h⟩

end Audit

end TradeReentry
