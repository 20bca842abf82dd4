import Mathlib.Data.List.Forall2
import Mathlib.Data.List.Induction
import TradeReentry.Proofs.Ledger.Sequences

/-!
# What a report says

Every issue of a row carries the number of the row (`row_of_mem_auditRow`), so that a report counts as valid just
the rows without an issue (`countP_auditRows`). A file passes exactly if it holds the header and records that
are `Acceptable` and `Ascending`; with these counts the report is exact (`exact_of_audit`).
-/

namespace TradeReentry.Audit

variable {schema : Schema} {header cells : List Text} {rows : List (List Text)} {number : Nat}
  {previous? : Option UInt64} {issue : Issue}

/-! ## The rows of issues -/

theorem row_of_mem_headerIssues {isDeclared : Bool} (h : issue ∈ headerIssues header schema isDeclared) :
    issue.row = 0 := by
  simp only [headerIssues, List.mem_append, List.mem_map] at h
  rcases h with (⟨_, -, rfl⟩ | ⟨_, -, rfl⟩) | h
  · rfl
  · rfl
  · split at h
    · rw [List.mem_append, List.mem_map] at h
      rcases h with ⟨_, -, rfl⟩ | h
      · rfl
      · split at h
        · rw [List.mem_singleton.1 h]
        · simp at h
    · simp at h

theorem row_of_mem_cellIssues {row : Row} {column : Column} (h : issue ∈ cellIssues row number column) :
    issue.row = number := by
  unfold cellIssues at h
  split at h
  · simp at h
  split at h
  · split at h
    · simp at h
    · rw [List.mem_singleton.1 h]
  · split at h
    · simp at h
    · rw [List.mem_singleton.1 h]

theorem row_of_mem_checksumIssues {row : Row} (h : issue ∈ checksumIssues row number) :
    issue.row = number := by
  unfold checksumIssues at h
  split at h
  · split at h
    · rw [List.mem_singleton.1 h]
    · simp at h
  · simp at h

theorem row_of_mem_sequenceIssues {current? : Option UInt64}
    (h : issue ∈ sequenceIssues previous? current? number) : issue.row = number := by
  unfold sequenceIssues at h
  split at h
  · split at h
    · rw [List.mem_singleton.1 h]
    · simp at h
  · simp at h

/-- An issue that the audit of a row finds carries the number of the row. -/
theorem row_of_mem_auditRow (h : issue ∈ (auditRow header schema previous? number cells).issues) :
    issue.row = number := by
  unfold auditRow at h
  split at h
  · rw [List.mem_singleton.1 h]
  split at h
  · rw [List.mem_singleton.1 h]
  simp only [contentIssues, List.mem_append, List.mem_flatMap] at h
  rcases h with (⟨_, -, h⟩ | h) | h
  · exact row_of_mem_cellIssues h
  · exact row_of_mem_checksumIssues h
  · exact row_of_mem_sequenceIssues h

/-! ## The findings of rows -/

theorem auditRows_eq_append (found : List Finding) :
    auditRows header schema previous? number found rows =
      found.reverse ++ auditRows header schema previous? number [] rows := by
  induction rows generalizing previous? number found with
  | nil => simp [auditRows]
  | cons cells rest ih =>
    rw [auditRows, ih, auditRows, ih [_]]
    simp

theorem auditRows_cons {rest : List (List Text)} :
    auditRows header schema previous? number [] (cells :: rest) =
      auditRow header schema previous? number cells ::
        auditRows header schema
          ((auditRow header schema previous? number cells).sequence?.or previous?) (number + 1) []
          rest := by
  rw [auditRows, auditRows_eq_append]
  simp

/-- The issues of all rows, in order. -/
def rowIssues (header : List Text) (schema : Schema) (previous? : Option UInt64) (number : Nat)
    (rows : List (List Text)) : List Issue :=
  (auditRows header schema previous? number [] rows).flatMap (·.issues)

theorem le_row_of_mem_rowIssues (h : issue ∈ rowIssues header schema previous? number rows) :
    number ≤ issue.row := by
  induction rows generalizing previous? number with
  | nil => simp [rowIssues, auditRows] at h
  | cons cells rest ih =>
    rw [rowIssues, auditRows_cons, List.flatMap_cons, List.mem_append] at h
    rcases h with h | h
    · exact Nat.le_of_eq (row_of_mem_auditRow h).symm
    · exact Nat.le_of_succ_le (ih h)

/-- A row that is not sound has an issue. -/
theorem exists_issue_of_not_sound (hs : schema.Standard) {before after : List (List Text)}
    (h : ¬Sound schema cells) :
    ∃ issue ∈ rowIssues schema.header schema previous? number (before ++ cells :: after),
      issue.row = number + before.length := by
  induction before generalizing previous? number with
  | nil =>
    have hne : (auditRow schema.header schema previous? number cells).issues ≠ [] := fun heq =>
      h ((issues_auditRow_eq_nil_iff hs).1 heq).1
    obtain ⟨issue, hissue⟩ := List.exists_mem_of_ne_nil _ hne
    refine ⟨issue, ?_, row_of_mem_auditRow hissue⟩
    rw [List.nil_append, rowIssues, auditRows_cons, List.flatMap_cons]
    exact List.mem_append_left _ hissue
  | cons first before ih =>
    obtain ⟨issue, hissue, hrow⟩ := @ih (number + 1)
      ((auditRow schema.header schema previous? number first).sequence?.or previous?)
    refine ⟨issue, ?_, by rw [hrow, List.length_cons]; omega⟩
    rw [List.cons_append, rowIssues, auditRows_cons, List.flatMap_cons]
    exact List.mem_append_right _ hissue

/-- A row that is not sound is reported in the audit of a text. -/
theorem exists_issue_ofText (hs : schema.Standard) {path text : Text} {before after : List (List Text)}
    (hdecode : Csv.decode text = .ok (schema.header :: (before ++ cells :: after)))
    (h : ¬Sound schema cells) :
    ∃ issue ∈ (ofText path text (some schema)).issues, issue.row = before.length + 1 := by
  obtain ⟨issue, hissue, hrow⟩ := exists_issue_of_not_sound hs h
  simp only [ofText, hdecode, Report.ofFindings]
  exact ⟨issue, List.mem_append_right _ hissue, hrow.trans (Nat.add_comm ..)⟩

/-! ## Counts -/

/-- Issues of earlier rows do not matter to later ones. -/
theorem countP_range'_append {before after : List Issue} {start count : Nat}
    (h : ∀ issue ∈ before, issue.row < start) :
    (List.range' start count).countP (fun row => ∀ issue ∈ before ++ after, issue.row ≠ row) =
      (List.range' start count).countP (fun row => ∀ issue ∈ after, issue.row ≠ row) := by
  refine List.countP_congr fun row hrow => ?_
  have hstart := (List.mem_range'_1.1 hrow).1
  have hbefore : ∀ issue ∈ before, issue.row ≠ row := fun issue hissue =>
    Nat.ne_of_lt (Nat.lt_of_lt_of_le (h issue hissue) hstart)
  simp only [decide_eq_true_eq, List.forall_mem_append]
  exact and_iff_right hbefore

/-- The findings without issues are as many as the rows whose number no issue carries. -/
theorem countP_auditRows :
    (auditRows header schema previous? number [] rows).countP (·.issues.isEmpty) =
      (List.range' number rows.length).countP fun row =>
        ∀ issue ∈ rowIssues header schema previous? number rows, issue.row ≠ row := by
  induction rows generalizing previous? number with
  | nil => rfl
  | cons cells rest ih =>
    rw [rowIssues, auditRows_cons, List.flatMap_cons, ← rowIssues, List.countP_cons, ih,
      List.length_cons, List.range'_succ, List.countP_cons, countP_range'_append]
    · congr 1
      refine if_congr ?_ rfl rfl
      -- only the audit of the first row can find an issue with its number
      have hrest : ∀ issue ∈ rowIssues header schema
          ((auditRow header schema previous? number cells).sequence?.or previous?) (number + 1) rest,
          issue.row ≠ number := fun issue hissue =>
        Nat.ne_of_gt (le_row_of_mem_rowIssues hissue)
      simp only [decide_eq_true_eq, List.forall_mem_append, List.isEmpty_iff]
      constructor
      · intro hnil
        exact ⟨by simp [hnil], hrest⟩
      · rintro ⟨hfirst, -⟩
        refine List.eq_nil_iff_forall_not_mem.2 fun issue hissue => ?_
        exact hfirst issue hissue (row_of_mem_auditRow hissue)
    · intro issue hissue
      rw [row_of_mem_auditRow hissue]
      exact Nat.lt_succ_self number

/-- A report passes a text without an issue, and counts each row as valid or invalid. -/
theorem report_ofText (path text : Text) (schema? : Option Schema) :
    ((ofText path text schema?).passed = true ↔ (ofText path text schema?).issues = []) ∧
      (ofText path text schema?).validRows + (ofText path text schema?).invalidRows =
        (ofText path text schema?).totalRows := by
  rw [ofText]
  split
  · simp [Report.refused]
  · simp [Report.refused]
  · refine ⟨List.isEmpty_iff, ?_⟩
    rw [Report.ofFindings, List.length_eq_countP_add_countP (·.issues.isEmpty)]
    simp only [decide_not, Bool.decide_eq_true]

/-- The counts of a text with a header. -/
theorem counts_ofText {path text : Text} {schema? : Option Schema}
    (hdecode : Csv.decode text = .ok (header :: rows)) :
    (ofText path text schema?).totalRows = rows.length ∧
      (ofText path text schema?).validRows =
        (List.range' 1 rows.length).countP fun row =>
          ∀ issue ∈ (ofText path text schema?).issues, issue.row ≠ row := by
  simp only [ofText, hdecode, Report.ofFindings]
  refine ⟨by simp [length_auditRows], ?_⟩
  rw [← rowIssues, countP_range'_append, countP_auditRows]
  intro issue hissue
  rw [row_of_mem_headerIssues hissue]
  exact Nat.one_pos

/-! ## Records that pass -/

/-- What a record has to be: one cell for each column, of its kind, and the checksum of the row. -/
structure Acceptable (schema : Schema) (cells : List Text) : Prop where
  fits : List.Forall₂ (fun column cell => Cell.check column cell = .ok ()) schema.columns cells
  checksum : (rowOf schema.header cells).find? Schema.checksumName =
    some (rowOf schema.header cells).checksum

theorem Acceptable.length (h : Acceptable schema cells) : cells.length = schema.header.length := by
  rw [Schema.header, List.length_map, h.fits.length_eq]

theorem sound_iff_acceptable (hs : schema.Standard) : Sound schema cells ↔ Acceptable schema cells := by
  have hforall : cells.length = schema.header.length →
      (List.Forall₂ (fun column cell => Cell.check column cell = .ok ()) schema.columns cells ↔
        ∀ column ∈ schema.columns,
          Cell.check column (((rowOf schema.header cells).find? column.name).getD []) = .ok ()) := by
    intro hlength
    have hcells : schema.columns.map
        (fun column => ((rowOf schema.header cells).find? column.name).getD []) = cells := by
      have hmap := map_find?_rowOf hs.nodup hlength
      rwa [show schema.header = schema.columns.map (·.name) from rfl, List.map_map] at hmap
    conv_lhs => rw [← hcells]
    rw [List.forall₂_map_right_iff, List.forall₂_same]
  constructor
  · intro h
    refine ⟨(hforall h.length).2 h.fits, ?_⟩
    have hverified := h.verified
    rw [Row.isVerified] at hverified
    split at hverified
    · next held hheld =>
      rw [Bool.and_eq_true, decide_eq_true_eq] at hverified
      rw [hheld, hverified.2]
    · simp at hverified
  · intro h
    refine ⟨h.length, (hforall h.length).1 h.fits, ?_⟩
    rw [Row.isVerified, h.checksum]
    simp [Row.checksum, Cell.isChecksum_hex]

/-- The sequence number of a record if it has no minus sign and is below 2^64. -/
def compared? (record : List Text) : Option Int :=
  if isCompared record then number? record else none

/-- Whether the sequence number of each record that has one below 2^64 is greater than that of the latest
record before it that has one. -/
def Ascending (records : List (List Text)) : Prop :=
  ∀ before record after, records = before ++ record :: after → ∀ n, compared? record = some n →
    ∀ m, (before.filterMap compared?).getLast? = some m → m < n

/-- The values of a list are a chain if each follows the latest one before it. -/
theorem isChain_filterMap_iff {α β : Type} {f : α → Option β} {r : β → β → Prop} {l : List α} :
    (l.filterMap f).IsChain r ↔ ∀ before x after, l = before ++ x :: after → ∀ b, f x = some b →
      ∀ a, (before.filterMap f).getLast? = some a → r a b := by
  constructor
  · rintro hchain before x after rfl b hb a ha
    rw [List.filterMap_append, List.isChain_append, List.filterMap_cons_some hb] at hchain
    exact hchain.2.2 a ha b rfl
  · intro h
    induction l using List.reverseRecOn with
    | nil => exact List.isChain_nil
    | append_singleton l x ih =>
      rw [List.filterMap_append, List.isChain_append]
      refine ⟨ih fun before y after hsplit => ?_, ?_, ?_⟩
      · exact h before y (after ++ [x]) (by rw [hsplit, List.append_assoc, List.cons_append])
      · cases hx : f x <;> simp [hx]
      · intro a ha b hb
        refine h l x [] rfl b ?_ a ha
        cases hx : f x <;> simp_all

theorem ascending_iff (hs : schema.Standard) (h : ∀ cells ∈ rows, Sound schema cells) :
    Ascending rows ↔ (rows.filterMap (sequenceIn? schema)).IsChain (· < ·) := by
  have hcompared : (rows.filterMap (sequenceIn? schema)).map (fun sequence => (sequence.toNat : Int)) =
      rows.filterMap compared? := by
    rw [List.map_filterMap]
    exact List.filterMap_congr fun cells hcells => sequenceIn?_eq hs (h cells hcells)
  rw [Ascending, ← isChain_filterMap_iff, ← hcompared, List.isChain_map]
  simp only [Int.ofNat_lt, UInt64.lt_iff_toNat_lt]

/-- A text passes if it holds the header and acceptable records that ascend. -/
theorem ofText_passed_iff_acceptable (hs : schema.Standard) {path text : Text} :
    (ofText path text (some schema)).passed = true ↔
      ∃ rows, Csv.decode text = .ok (schema.header :: rows) ∧ (∀ cells ∈ rows, Acceptable schema cells) ∧
        Ascending rows := by
  rw [ofText_passed_iff hs]
  simp only [← sound_iff_acceptable hs]
  refine exists_congr fun rows => and_congr_right fun _ => and_congr_right fun hsound => ?_
  exact (ascending_iff hs hsound).symm

/-- The report of an audit under a built-in schema is exact. It passes just if it has no issue, every row is
counted as valid or invalid, and the valid rows are those whose number no issue carries. A file passes exactly
if its first record is the header of the schema, every other record is acceptable, and the sequence numbers
that are compared ascend. -/
theorem exact_of_audit (hschema : schema ∈ Schema.builtin) (disk : Disk) (path : Text) :
    let report := ofFileAs disk path schema
    (report.passed = true ↔ report.issues = []) ∧
      report.validRows + report.invalidRows = report.totalRows ∧
      (∀ text header rows, disk.file? path = some text → Csv.decode text = .ok (header :: rows) →
        report.totalRows = rows.length ∧
          report.validRows = (List.range' 1 report.totalRows).countP fun row =>
            ∀ issue ∈ report.issues, issue.row ≠ row) ∧
      (report.passed = true ↔ ∃ text rows, disk.file? path = some text ∧
        Csv.decode text = .ok (schema.header :: rows) ∧ (∀ cells ∈ rows, Acceptable schema cells) ∧
          Ascending rows) := by
  have hs := Schema.standard_of_mem_builtin hschema
  intro report
  cases hread : disk.file? path with
  | none =>
    have hreport : report.passed = false ∧ report.issues ≠ [] ∧ report.validRows = 0 ∧
        report.invalidRows = 0 ∧ report.totalRows = 0 := by
      simp [report, ofFileAs, hread, Report.refused]
    simp [hreport]
  | some text =>
    have hreport : report = ofText path text (some schema) := by simp only [report, ofFileAs, hread]
    rw [hreport]
    obtain ⟨hpassed, htotal⟩ := report_ofText path text (some schema)
    refine ⟨hpassed, htotal, ?_, ?_⟩
    · rintro _ header rows ⟨⟩ hdecode
      obtain ⟨hrows, hvalid⟩ := @counts_ofText header rows path text (some schema) hdecode
      exact ⟨hrows, by rw [hrows, hvalid]⟩
    · rw [ofText_passed_iff_acceptable hs]
      constructor
      · rintro ⟨rows, hdecode, hrows⟩
        exact ⟨text, rows, rfl, hdecode, hrows⟩
      · rintro ⟨_, rows, ⟨⟩, hdecode, hrows⟩
        exact ⟨rows, hdecode, hrows⟩

/-- A text with two rows that are sound, the header again, and a row that is cut short. -/
def flawedText : Text :=
  foreignText ++ "\n" ++ Csv.encodeRecord Schema.reentryDecisions.header ++ "\n9,T3"

/-- A disk with the text. -/
def flawedDisk : Disk := { working := .file "decisions.csv" (.ofText flawedText) .empty }

theorem exact_of_audit_flawedDisk :
    let report := ofFileAs flawedDisk "decisions.csv" Schema.reentryDecisions
    report.passed = false ∧ report.issues.map (·.row) = [3, 4] ∧
      report.totalRows = 4 ∧ report.validRows = 2 ∧ report.invalidRows = 2 := by
  have hbuiltin : Schema.reentryDecisions ∈ Schema.builtin := by decide
  obtain ⟨hpassed, htotal, hcounts, -⟩ := exact_of_audit hbuiltin flawedDisk "decisions.csv"
  have hissues : (ofFileAs flawedDisk "decisions.csv" Schema.reentryDecisions).issues.map (·.row) =
      [3, 4] := by decide +kernel
  have hread : flawedDisk.file? "decisions.csv" = some flawedText := by decide +kernel
  have hfive : (Csv.decode flawedText).map List.length = .ok 5 := by decide +kernel
  obtain ⟨header, rows, hdecode⟩ : ∃ header rows, Csv.decode flawedText = .ok (header :: rows) := by
    cases hdecode : Csv.decode flawedText with
    | error error => simp [hdecode, Except.map] at hfive
    | ok records =>
      cases records with
      | nil => simp [hdecode, Except.map] at hfive
      | cons header rows => exact ⟨header, rows, rfl⟩
  obtain ⟨hrows, hvalid⟩ := hcounts flawedText header rows hread hdecode
  have hfour : rows.length = 4 := by simpa [hdecode, Except.map] using hfive
  rw [hfour] at hrows
  have htwo : (List.range' 1 4).countP (fun row =>
      ∀ issue ∈ (ofFileAs flawedDisk "decisions.csv" Schema.reentryDecisions).issues,
        issue.row ≠ row) = 2 := by
    have hmem : ∀ row, (∀ issue ∈ (ofFileAs flawedDisk "decisions.csv" Schema.reentryDecisions).issues,
        issue.row ≠ row) ↔ row ∉ [3, 4] := fun row => by rw [← hissues, List.mem_map, not_exists]; simp
    simp only [hmem]
    decide
  rw [hrows, htwo] at hvalid
  refine ⟨?_, hissues, hrows, hvalid, by omega⟩
  rw [← Bool.not_eq_true, hpassed]
  intro hnil
  rw [hnil] at hissues
  simp at hissues

end TradeReentry.Audit
