import TradeReentry.Proofs.Ledger.Edits

/-!
# How far a row reaches into a report

All that the audit of a row hands on to later ones is the latest sequence number (`latest?`), and a row that
has a number of its own hands on that one. Two files that differ in one record therefore have the same issues
in all other rows, but for a sequence violation in the next row that is numbered (`issues_of_differing`).
-/

namespace TradeReentry.Audit

variable {schema : Schema} {header cells : List Text} {rows rows' : List (List Text)} {number i k : Nat}
  {previous? : Option UInt64} {issue : Issue}

/-! ## What a row hands on -/

/-- The sequence number of a row, which has to have the width of the header, not to repeat it, and to hold
a number that can be read. -/
def numbered? (header cells : List Text) : Option UInt64 :=
  if cells = header ∨ cells.length ≠ header.length then none else sequence? (rowOf header cells)

/-- The latest sequence number of rows. -/
def latest? (header : List Text) (rows : List (List Text)) : Option UInt64 :=
  (rows.filterMap (numbered? header)).getLast?

theorem sequence?_auditRow_eq :
    (auditRow header schema previous? number cells).sequence? = numbered? header cells := by
  by_cases hheader : cells = header
  · simp [auditRow, numbered?, hheader]
  · by_cases hlength : cells.length = header.length
    · simp [auditRow, numbered?, hheader, hlength]
    · simp [auditRow, numbered?, hheader, hlength]

theorem latest?_append (before after : List (List Text)) :
    latest? header (before ++ after) = (latest? header after).or (latest? header before) := by
  rw [latest?, List.filterMap_append, List.getLast?_append, ← latest?, ← latest?]

theorem latest?_cons_or (cells : List Text) (rest : List (List Text)) :
    (latest? header (cells :: rest)).or previous? =
      (latest? header rest).or ((numbered? header cells).or previous?) := by
  have hsingle : latest? header [cells] = numbered? header cells := by
    rw [latest?, List.filterMap_cons, List.filterMap_nil]
    cases numbered? header cells <;> rfl
  rw [← List.singleton_append, latest?_append, hsingle, Option.or_assoc]

theorem latest?_eq_none_iff : latest? header rows = none ↔ ∀ cells ∈ rows, numbered? header cells = none := by
  rw [latest?, List.getLast?_eq_none_iff, List.filterMap_eq_nil_iff]

/-- The issues with the number of a row are those that its audit finds after the latest number before it. -/
theorem filter_rowIssues :
    (rowIssues header schema previous? number rows).filter (·.row = number + i) =
      match rows[i]? with
      | none => []
      | some cells => (auditRow header schema ((latest? header (rows.take i)).or previous?) (number + i)
          cells).issues := by
  induction rows generalizing previous? number i with
  | nil => rfl
  | cons first rest ih =>
    rw [rowIssues, auditRows_cons, List.flatMap_cons, ← rowIssues, List.filter_append]
    cases i with
    | zero =>
      have hfirst : (auditRow header schema previous? number first).issues.filter
          (·.row = number + 0) = (auditRow header schema previous? number first).issues :=
        List.filter_eq_self.2 fun issue hissue => decide_eq_true (row_of_mem_auditRow hissue)
      rw [hfirst, List.filter_eq_nil_iff.2, List.append_nil]
      · rfl
      · intro issue hissue
        have hrow := le_row_of_mem_rowIssues hissue
        simp only [decide_eq_true_eq]
        omega
    | succ i =>
      rw [List.filter_eq_nil_iff.2, List.nil_append, ← Nat.succ_add_eq_add_succ, ih,
        sequence?_auditRow_eq]
      · simp only [List.getElem?_cons_succ, List.take_succ_cons, latest?_cons_or]
      · intro issue hissue
        have hrow := row_of_mem_auditRow hissue
        simp only [decide_eq_true_eq]
        omega

/-! ## What a row takes over -/

/-- Whether the issues of a row in two reports are the same but for a sequence violation, of which either
has at most one. -/
structure AlikeButSequence (issues issues' : List Issue) : Prop where
  others : issues.filter (·.kind ≠ .sequence) = issues'.filter (·.kind ≠ .sequence)
  one : issues.countP (·.kind = .sequence) ≤ 1
  one' : issues'.countP (·.kind = .sequence) ≤ 1

/-- A row without a number has the same issues, whatever came before it. -/
theorem issues_auditRow_of_not_numbered (h : numbered? header cells = none) (before? : Option UInt64) :
    (auditRow header schema previous? number cells).issues =
      (auditRow header schema before? number cells).issues := by
  rw [auditRow, auditRow]
  split
  · rfl
  split
  · rfl
  next hheader hlength =>
  rw [numbered?, if_neg (not_or.2 ⟨hheader, hlength⟩)] at h
  have hnone : ∀ earlier? : Option UInt64, sequenceIssues earlier? none number = [] := by
    intro earlier?
    cases earlier? <;> rfl
  simp only [contentIssues, h, hnone]

theorem kind_of_mem_cellIssues {row : Row} {column : Column} (h : issue ∈ cellIssues row number column) :
    issue.kind ≠ .sequence := by
  unfold cellIssues at h
  split at h
  · simp at h
  split at h
  · split at h
    · simp at h
    · simp [List.mem_singleton.1 h]
  · split at h
    · simp at h
    · simp [List.mem_singleton.1 h]

theorem kind_of_mem_checksumIssues {row : Row} (h : issue ∈ checksumIssues row number) :
    issue.kind ≠ .sequence := by
  unfold checksumIssues at h
  split at h
  · split at h
    · simp [List.mem_singleton.1 h]
    · simp at h
  · simp at h

theorem kind_of_mem_sequenceIssues {current? : Option UInt64}
    (h : issue ∈ sequenceIssues previous? current? number) : issue.kind = .sequence := by
  unfold sequenceIssues at h
  split at h
  · split at h
    · simp [List.mem_singleton.1 h]
    · simp at h
  · simp at h

theorem length_sequenceIssues_le (previous? current? : Option UInt64) (number : Nat) :
    (sequenceIssues previous? current? number).length ≤ 1 := by
  unfold sequenceIssues
  split
  · split <;> simp
  · simp

/-- Of the issues of a row only a sequence violation depends on what came before it. -/
theorem exists_issues_auditRow (header : List Text) (schema : Schema) (number : Nat) (cells : List Text) :
    ∃ own : List Issue, (∀ issue ∈ own, issue.kind ≠ .sequence) ∧ ∀ previous? : Option UInt64,
      ∃ violation : List Issue, violation.length ≤ 1 ∧ (∀ issue ∈ violation, issue.kind = .sequence) ∧
        (auditRow header schema previous? number cells).issues = own ++ violation := by
  by_cases hheader : cells = header
  · exact ⟨[⟨.shape, number, [], "重复表头行"⟩], by simp, fun _ => ⟨[], by simp, by simp,
      by simp [auditRow, hheader]⟩⟩
  by_cases hlength : cells.length = header.length
  · refine ⟨schema.columns.flatMap (cellIssues (rowOf header cells) number) ++
      checksumIssues (rowOf header cells) number, ?_, fun previous? => ?_⟩
    · intro issue hissue
      rcases List.mem_append.1 hissue with hissue | hissue
      · obtain ⟨column, -, hissue⟩ := List.mem_flatMap.1 hissue
        exact kind_of_mem_cellIssues hissue
      · exact kind_of_mem_checksumIssues hissue
    · refine ⟨sequenceIssues previous? (sequence? (rowOf header cells)) number,
        length_sequenceIssues_le .., fun issue hissue => kind_of_mem_sequenceIssues hissue, ?_⟩
      simp [auditRow, hheader, hlength, contentIssues]
  · refine ⟨(auditRow header schema none number cells).issues, ?_, fun previous? => ⟨[], by simp,
      by simp, ?_⟩⟩
    · simp [auditRow, hheader, hlength]
    · simp [auditRow, hheader, hlength]

theorem alikeButSequence_auditRow (before? : Option UInt64) :
    AlikeButSequence (auditRow header schema previous? number cells).issues
      (auditRow header schema before? number cells).issues := by
  obtain ⟨own, hown, hviolation⟩ := exists_issues_auditRow header schema number cells
  have hothers : ∀ violation : List Issue, (∀ issue ∈ violation, issue.kind = .sequence) →
      (own ++ violation).filter (·.kind ≠ .sequence) = own := by
    intro violation hkind
    rw [List.filter_append, List.filter_eq_self.2, List.filter_eq_nil_iff.2, List.append_nil]
    · simpa using hkind
    · simpa using hown
  have hone : ∀ violation : List Issue, violation.length ≤ 1 →
      (own ++ violation).countP (·.kind = .sequence) ≤ 1 := by
    intro violation hlength
    rw [List.countP_append, List.countP_eq_zero.2, Nat.zero_add]
    · exact Nat.le_trans List.countP_le_length hlength
    · simpa using hown
  obtain ⟨first, hfirst, hkind, hissues⟩ := hviolation previous?
  obtain ⟨second, hsecond, hkind', hissues'⟩ := hviolation before?
  rw [hissues, hissues']
  exact ⟨(hothers _ hkind).trans (hothers _ hkind').symm, hone _ hfirst, hone _ hsecond⟩

/-! ## Files that differ in one record -/

/-- Whether a row is the first numbered one after another row. -/
structure IsNextNumbered (header : List Text) (rows : List (List Text)) (k i : Nat) : Prop where
  later : k < i
  numbered : ∃ cells, rows[i]? = some cells ∧ (numbered? header cells).isSome = true
  first : ∀ j cells, k < j → j < i → rows[j]? = some cells → numbered? header cells = none

/-- The latest number before a row that comes after a numbered one does not depend on a row before that. -/
theorem latest?_take_congr (hsame : ∀ j, j ≠ k → rows[j]? = rows'[j]?) (hi : i ≤ k ∨
    ∃ j cells, k < j ∧ j < i ∧ rows[j]? = some cells ∧ (numbered? header cells).isSome = true) :
    latest? header (rows.take i) = latest? header (rows'.take i) := by
  rcases hi with hi | ⟨j, cells, hkj, hji, hcells, hnumbered⟩
  · have htake : rows.take i = rows'.take i := by
      apply List.ext_getElem?
      intro n
      rw [List.getElem?_take, List.getElem?_take]
      split
      · exact hsame n (by omega)
      · rfl
    rw [htake]
  · -- the rows between are the same in both, and one of them is numbered
    have hsplit : ∀ l : List (List Text), l.take i = l.take (k + 1) ++ (l.drop (k + 1)).take (i - (k + 1)) := by
      intro l
      conv_lhs => rw [← List.take_append_drop (k + 1) (l.take i)]
      rw [List.take_take, Nat.min_eq_left (by omega), List.drop_take]
    have hdrop : rows.drop (k + 1) = rows'.drop (k + 1) := by
      apply List.ext_getElem?
      intro n
      rw [List.getElem?_drop, List.getElem?_drop]
      exact hsame _ (by omega)
    have hmem : cells ∈ (rows.drop (k + 1)).take (i - (k + 1)) := by
      refine List.mem_of_getElem? (i := j - (k + 1)) ?_
      rw [List.getElem?_take_of_lt (by omega), List.getElem?_drop, ← hcells]
      congr 1
      omega
    have hsome : latest? header ((rows.drop (k + 1)).take (i - (k + 1))) ≠ none := by
      intro hnone
      rw [latest?_eq_none_iff.1 hnone cells hmem] at hnumbered
      simp at hnumbered
    obtain ⟨sequence, hsequence⟩ := Option.ne_none_iff_exists'.1 hsome
    rw [hsplit rows, hsplit rows', latest?_append, latest?_append, ← hdrop, hsequence, Option.some_or,
      Option.some_or]

/-- The issues of a report that carry the number of a row; the whole file is row 0. -/
def Report.issuesOf (report : Report) (row : Nat) : List Issue := report.issues.filter (·.row = row)

theorem issuesOf_congr {report report' : Report} (h : report.issues = report'.issues) (row : Nat) :
    report.issuesOf row = report'.issuesOf row := by
  rw [Report.issuesOf, h, Report.issuesOf]

/-- The issues of a row in the audit of a text with a header. -/
theorem issuesOf_ofText (schema : Schema) (path : Text) {text : Text}
    (hdecode : Csv.decode text = .ok (header :: rows)) :
    (ofText path text (some schema)).issuesOf 0 = headerIssues header schema true ∧
      ∀ i, (ofText path text (some schema)).issuesOf (i + 1) =
        match rows[i]? with
        | none => []
        | some cells => (auditRow header schema (latest? header (rows.take i)) (i + 1) cells).issues := by
  simp only [Report.issuesOf, ofText, hdecode, Report.ofFindings, List.filter_append]
  rw [← rowIssues]
  constructor
  · rw [List.filter_eq_self.2 fun issue hissue => decide_eq_true (row_of_mem_headerIssues hissue),
      List.filter_eq_nil_iff.2, List.append_nil]
    · rfl
    · intro issue hissue
      have hrow := le_row_of_mem_rowIssues hissue
      simp only [decide_eq_true_eq]
      omega
  · intro i
    rw [List.filter_eq_nil_iff.2, List.nil_append, Nat.add_comm i 1, filter_rowIssues]
    · simp only [Option.or_none, Option.getD_some]
    · intro issue hissue
      have hrow := row_of_mem_headerIssues hissue
      simp only [decide_eq_true_eq]
      omega

variable {disk disk' : Disk} {path path' text text' : Text} {report report' : Report}

/-- Two files that read as the same header and as rows which differ in one place only: audits of them under a
built-in schema find the same issues in every other row and of the files as a whole, save the first numbered
row after that place, where the issues are the same but for a sequence violation. -/
theorem issues_of_differing (hschema : schema ∈ Schema.builtin) (h : IsReport disk path schema report)
    (h' : IsReport disk' path' schema report') (hread : disk.file? path = some text)
    (hread' : disk'.file? path' = some text') (hdecode : Csv.decode text = .ok (header :: rows))
    (hdecode' : Csv.decode text' = .ok (header :: rows')) (hsame : ∀ i, i ≠ k → rows[i]? = rows'[i]?) :
    (∀ row, row ≠ k + 1 → (∀ i, IsNextNumbered header rows k i → row ≠ i + 1) →
      report.issuesOf row = report'.issuesOf row) ∧
    ∀ i, IsNextNumbered header rows k i →
      AlikeButSequence (report.issuesOf (i + 1)) (report'.issuesOf (i + 1)) := by
  have hs := Schema.standard_of_mem_builtin hschema
  have hissues := issuesOf_congr (h.eq_ofText hs hread).2
  have hissues' := issuesOf_congr (h'.eq_ofText hs hread').2
  obtain ⟨hzero, hrows⟩ := issuesOf_ofText schema path hdecode
  obtain ⟨hzero', hrows'⟩ := issuesOf_ofText schema path' hdecode'
  constructor
  · intro row hrow hnext
    rw [hissues, hissues']
    cases row with
    | zero => rw [hzero, hzero']
    | succ i =>
      have hne : i ≠ k := fun heq => hrow (congrArg (· + 1) heq)
      rw [hrows, hrows', ← hsame i hne]
      cases hcells : rows[i]? with
      | none => rfl
      | some cells =>
        show (auditRow _ _ _ _ _).issues = (auditRow _ _ _ _ _).issues
        by_cases hunnumbered : numbered? header cells = none
        · exact issues_auditRow_of_not_numbered hunnumbered _
        · -- a numbered row that is not the next one comes before the record or after the next one
          rw [latest?_take_congr hsame]
          by_contra hbetween
          rw [not_or, Nat.not_le] at hbetween
          refine hnext i ⟨hbetween.1, ⟨cells, hcells, ?_⟩, ?_⟩ rfl
          · exact Option.isSome_iff_ne_none.2 hunnumbered
          · intro j other hkj hji hother
            by_contra hnumbered
            exact hbetween.2 ⟨j, other, hkj, hji, hother, Option.isSome_iff_ne_none.2 hnumbered⟩
  · intro i hnext
    obtain ⟨cells, hcells, -⟩ := hnext.numbered
    rw [hissues, hissues', hrows, hrows', ← hsame i (Nat.ne_of_gt hnext.later), hcells]
    exact alikeButSequence_auditRow _

/-- Four rows that have nothing but a sequence cell, of which the second one holds no number. -/
def bareRows (sequence : Text) : List (List Text) :=
  [sequence, "x", "2", "3"].map fun cell => cell :: List.replicate 14 []

/-- A disk with a table of the rows. -/
def bareDisk (sequence : Text) : Disk :=
  { working := .file "decisions.csv"
      (.ofText (Csv.encode (Schema.reentryDecisions.header :: bareRows sequence))) .empty }

/-- Another number in the first row adds a violation to the third row and nothing to the others. -/
theorem issues_of_differing_bareDisk :
    let report := ofFileAs (bareDisk "1") "decisions.csv" Schema.reentryDecisions
    let report' := ofFileAs (bareDisk "9") "decisions.csv" Schema.reentryDecisions
    report.issuesOf 2 = report'.issuesOf 2 ∧ report.issuesOf 4 = report'.issuesOf 4 ∧
      AlikeButSequence (report.issuesOf 3) (report'.issuesOf 3) ∧
      (report'.issuesOf 3).length = (report.issuesOf 3).length + 1 := by
  intro report report'
  have hbuiltin : Schema.reentryDecisions ∈ Schema.builtin := by decide
  have hread : (bareDisk "1").file? "decisions.csv" =
      some (Csv.encode (Schema.reentryDecisions.header :: bareRows "1")) := by decide +kernel
  have hread' : (bareDisk "9").file? "decisions.csv" =
      some (Csv.encode (Schema.reentryDecisions.header :: bareRows "9")) := by decide +kernel
  have hdecode : Csv.decode (Csv.encode (Schema.reentryDecisions.header :: bareRows "1")) =
      .ok (Schema.reentryDecisions.header :: bareRows "1") := by decide +kernel
  have hdecode' : Csv.decode (Csv.encode (Schema.reentryDecisions.header :: bareRows "9")) =
      .ok (Schema.reentryDecisions.header :: bareRows "9") := by decide +kernel
  have hsame : ∀ i, i ≠ 0 → (bareRows "1")[i]? = (bareRows "9")[i]? := by
    intro i hi
    obtain ⟨j, rfl⟩ := Nat.exists_eq_succ_of_ne_zero hi
    rfl
  have hnumbers : (bareRows "1").map (numbered? Schema.reentryDecisions.header) =
      [some 1, none, some 2, some 3] := by decide +kernel
  have hnumber : ∀ {i : Nat} {cells : List Text}, (bareRows "1")[i]? = some cells →
      [some 1, none, some 2, some 3][i]? = some (numbered? Schema.reentryDecisions.header cells) := by
    intro i cells hcells
    rw [← hnumbers, List.getElem?_map, hcells]
    rfl
  have hnext : ∀ i, IsNextNumbered Schema.reentryDecisions.header (bareRows "1") 0 i ↔ i = 2 := by
    intro i
    constructor
    · intro hi
      obtain ⟨cells, hcells, hsome⟩ := hi.numbered
      rcases Nat.lt_trichotomy i 2 with hlt | heq | hgt
      · obtain rfl : i = 1 := Nat.le_antisymm (Nat.le_of_lt_succ hlt) hi.later
        rw [← Option.some.inj (hnumber hcells)] at hsome
        exact absurd hsome (by decide)
      · exact heq
      · have hnone := hnumber (i := 2) rfl
        rw [hi.first 2 _ (by decide) hgt rfl] at hnone
        exact absurd hnone (by decide)
    · rintro rfl
      refine ⟨by decide, ⟨_, rfl, by rw [← Option.some.inj (hnumber (i := 2) rfl)]; rfl⟩, ?_⟩
      intro j cells hlow hhigh hcells
      obtain rfl : j = 1 := Nat.le_antisymm (Nat.le_of_lt_succ hhigh) hlow
      exact (Option.some.inj (hnumber hcells)).symm
  obtain ⟨hothers, hviolation⟩ :=
    issues_of_differing hbuiltin .named .named hread hread' hdecode hdecode' hsame
  have hapart : ∀ row, row ≠ 3 →
      ∀ i, IsNextNumbered Schema.reentryDecisions.header (bareRows "1") 0 i → row ≠ i + 1 := by
    intro row hrow i hi
    rwa [(hnext i).1 hi]
  exact ⟨hothers 2 (by decide) (hapart 2 (by decide)), hothers 4 (by decide) (hapart 4 (by decide)),
    hviolation 2 ((hnext 2).2 rfl), by decide +kernel⟩

end TradeReentry.Audit
