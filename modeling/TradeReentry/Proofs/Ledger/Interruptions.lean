import TradeReentry.Proofs.Ledger.Runs

/-!
# Ledgers that are interrupted

A ledger appends rows, and between two of them its directory may be removed, blocked by a file and put back.
As long as nobody else writes its files (`Undisturbed`), the rows that are written are numbered from one on
without a gap, whatever failed in between, and a row that is not written leaves nothing behind
(`numbers_of_interrupted`).
-/

namespace TradeReentry

namespace Ledger

open Files

/-! ## Runs -/

/-- Whether nobody else wrote the files of a ledger: what lies at one of its paths lay there before, and no
unfinished file does. (The paths below one with a zero byte are that path itself.) -/
structure Undisturbed (ledger : Ledger) (past : List Disk) (disk : Disk) : Prop where
  files : ∀ now t, disk.file? (ledger.pathAt now) = some t →
    ∃ earlier ∈ past, earlier.file? (ledger.pathAt now) = some t
  finished : (0 : UInt8) ∉ ledger.settings.outputDirectory → ∀ now,
    disk.file? (ledger.pathAt now ++ ".tmp") = none

/-- The entries, all disks so far, the ledger and the disk after a run that began without ledger files. -/
inductive Interrupted (settings : LedgerSettings) (schema : Schema) :
    List Entry → List Disk → Ledger → Disk → Prop where
  | start (origin : Disk) (horigin : Undisturbed { settings, schema } [] origin) :
    Interrupted settings schema [] [origin] { settings, schema } origin
  /-- Others change the disk. Files of the ledger may go and come back. -/
  | disturb {history : List Entry} {past : List Disk} {ledger : Ledger} {disk : Disk}
      (h : Interrupted settings schema history past ledger disk) (disk' : Disk)
      (hdisk : Undisturbed ledger past disk') :
    Interrupted settings schema history (past ++ [disk']) ledger disk'
  | append {history : List Entry} {past : List Disk} {ledger : Ledger} {disk : Disk}
      (h : Interrupted settings schema history past ledger disk) (now : Instant) (row : Row) :
    Interrupted settings schema (history ++ entryOf row (ledger.append disk now row).result)
      (past ++ [(ledger.append disk now row).state.2]) (ledger.append disk now row).state.1
      (ledger.append disk now row).state.2

variable {settings : LedgerSettings} {schema : Schema} {history : List Entry} {past : List Disk}
  {ledger chosen : Ledger} {disk disk' : Disk} {now : Instant} {row : Row}

/-! ## The numbers -/

/-- How the numbers of the entries and the next one stand to each other, as long as no number has come
round. -/
structure Counted (history : List Entry) (ledger : Ledger) : Prop where
  numbers : history.length < 2 ^ 64 →
    history.map (·.receipt.sequence.toNat) = List.range' 1 history.length
  next : history.length + 1 < 2 ^ 64 → ledger.nextSequence.toNat = history.length + 1

namespace Counted

theorem sequence_le (h : Counted history ledger) (hlength : history.length < 2 ^ 64) {e : Entry}
    (he : e ∈ history) : e.receipt.sequence.toNat ≤ history.length := by
  have hmem : e.receipt.sequence.toNat ∈ history.map (·.receipt.sequence.toNat) :=
    List.mem_map_of_mem he
  rw [h.numbers hlength, List.mem_range'_1] at hmem
  omega

/-- A file that is continued holds no number that is still to come. -/
theorem adopt (hs : schema.Standard) (h : Counted history ledger) {entries : List Entry}
    (hentries : ∀ e ∈ entries, e ∈ history) {path : Text} {highest : UInt64}
    (hhighest : highestSequence path 1 0 (entries.map (·.cells schema)) = .ok highest)
    (hnext : chosen.nextSequence =
      if ledger.nextSequence ≤ highest then highest + 1 else ledger.nextSequence) :
    Counted history chosen := by
  refine ⟨h.numbers, ?_⟩
  intro hlength
  have hle : highest.toNat ≤ history.length := by
    rcases (highestSequence_spec hhighest).2.2 with rfl | ⟨record, hrecord, hsequence⟩
    · exact Nat.zero_le _
    · obtain ⟨e, he, rfl⟩ := List.mem_map.1 hrecord
      rw [sequenceOf?_cells hs, Option.some.injEq] at hsequence
      rw [← hsequence]
      exact h.sequence_le (by omega) (hentries e he)
  have habove : ¬ledger.nextSequence ≤ highest := by
    rw [UInt64.le_iff_toNat_le, h.next hlength]
    omega
  rw [hnext, if_neg habove]
  exact h.next hlength

/-- An entry that takes the next number. -/
theorem append (h : Counted history ledger) {e : Entry}
    (hsequence : e.receipt.sequence = ledger.nextSequence)
    (hnext : chosen.nextSequence = ledger.nextSequence + 1) : Counted (history ++ [e]) chosen := by
  have hlength : (history ++ [e]).length = history.length + 1 := List.length_append
  constructor
  case numbers =>
    intro hlt
    rw [hlength] at hlt ⊢
    rw [List.map_append, List.map_singleton, h.numbers (by omega), hsequence, h.next hlt,
      List.range'_concat, Nat.one_mul, Nat.add_comm 1]
  case next =>
    intro hlt
    rw [hlength] at hlt ⊢
    have hlast := h.next (by omega)
    rw [hnext, toNat_succ (by omega), hlast]

end Counted

/-! ## The disks -/

/-- How the ledger and the disks stand to the entries so far. -/
structure Intact (settings : LedgerSettings) (schema : Schema) (history : List Entry)
    (past : List Disk) (ledger : Ledger) (disk : Disk) : Prop where
  settings_eq : ledger.settings = settings
  schema_eq : ledger.schema = schema
  inUse : ledger.InUse
  counted : Counted history ledger
  present : disk ∈ past
  files : ∀ earlier ∈ past, ∀ now t, earlier.file? (ledger.pathAt now) = some t →
    ∃ entries : List Entry, (∀ e ∈ entries, e ∈ history) ∧
      Csv.Lines t (schema.header :: entries.map (·.cells schema))
  finished : ∀ earlier ∈ past, (0 : UInt8) ∉ ledger.settings.outputDirectory → ∀ now,
    earlier.file? (ledger.pathAt now ++ ".tmp") = none

theorem pathAt_congr (hsettings : chosen.settings = ledger.settings)
    (hschema : chosen.schema = ledger.schema) : chosen.pathAt = ledger.pathAt := by
  funext now
  rw [pathAt, pathAt, hsettings, hschema]

namespace Intact

/-- Another ledger with the same settings, numbers and paths. -/
theorem of_ledger (h : Intact settings schema history past ledger disk)
    (hsettings : chosen.settings = ledger.settings) (hschema : chosen.schema = ledger.schema)
    (huse : chosen.InUse) (hcounted : Counted history chosen) :
    Intact settings schema history past chosen disk := by
  have hpath := pathAt_congr hsettings hschema
  refine ⟨hsettings.trans h.settings_eq, hschema.trans h.schema_eq, huse, hcounted, h.present, ?_, ?_⟩
  · rw [hpath]
    exact h.files
  · rw [hpath, hsettings]
    exact h.finished

/-- A disk that was there may come back. -/
theorem undisturbed_of_mem (h : Intact settings schema history past ledger disk) {earlier : Disk}
    (hearlier : earlier ∈ past) : Undisturbed ledger past earlier :=
  ⟨fun _ _ ht => ⟨earlier, hearlier, ht⟩, h.finished earlier hearlier⟩

theorem disturb (h : Intact settings schema history past ledger disk)
    (hdisk : Undisturbed ledger past disk') :
    Intact settings schema history (past ++ [disk']) ledger disk' := by
  refine ⟨h.settings_eq, h.schema_eq, h.inUse, h.counted, by simp, ?_, ?_⟩
  · intro earlier hearlier now t ht
    rcases List.mem_append.1 hearlier with hearlier | hearlier
    · exact h.files earlier hearlier now t ht
    · obtain rfl := List.mem_singleton.1 hearlier
      obtain ⟨before, hbefore, ht⟩ := hdisk.files now t ht
      exact h.files before hbefore now t ht
  · intro earlier hearlier
    rcases List.mem_append.1 hearlier with hearlier | hearlier
    · exact h.finished earlier hearlier
    · obtain rfl := List.mem_singleton.1 hearlier
      exact hdisk.finished

/-- A step that changes no file. -/
theorem again (h : Intact settings schema history past ledger disk) :
    Intact settings schema history (past ++ [disk]) ledger disk :=
  h.disturb (h.undisturbed_of_mem h.present)

theorem countFailure (h : Intact settings schema history past ledger disk) :
    Intact settings schema history past ledger.countFailure disk :=
  h.of_ledger rfl rfl h.inUse ⟨h.counted.numbers, h.counted.next⟩

/-- The ledger with the file for a row. -/
theorem choice (hs : schema.Standard) (h : Intact settings schema history past ledger disk)
    (hchoice : Choice ledger disk now chosen) :
    Intact settings schema history past chosen disk ∧
      ∃ opened, chosen.currentFile = chosen.pathAt opened := by
  have hopened := inUse_choice h.inUse hchoice
  obtain ⟨hschema, hsettings⟩ := hchoice.schema_eq
  refine ⟨h.of_ledger hsettings hschema (.inr hopened) ?_, hopened⟩
  cases hchoice with
  | keep _ _ hchosen => exact hchosen ▸ h.counted
  | create _ hchosen => exact hchosen ▸ ⟨h.counted.numbers, h.counted.next⟩
  | adopt t records highest hfile hdecode hhighest hchosen =>
    obtain ⟨entries, hentries, hlines⟩ := h.files disk h.present now t hfile
    rw [hlines.decode_eq, Except.ok.injEq, h.schema_eq, List.cons.injEq] at hdecode
    rw [← hdecode.2] at hhighest
    exact h.counted.adopt hs hentries hhighest (by rw [hchosen])

/-- The file that a line was added to holds some entries and the new one. -/
theorem lines_continued (hs : schema.Standard) (h : Intact settings schema history past ledger disk)
    {opened : Instant} (hcurrent : ledger.currentFile = ledger.pathAt opened) (e : Entry) :
    ∃ entries : List Entry, (∀ e' ∈ entries, e' ∈ history ++ [e]) ∧
      Csv.Lines (continued schema (lineOf (e.cells schema)) (disk.file? ledger.currentFile))
        (schema.header :: entries.map (·.cells schema)) := by
  obtain ⟨entries, hentries, hlines⟩ : ∃ entries : List Entry, (∀ e' ∈ entries, e' ∈ history) ∧
      Csv.Lines (continued schema (lineOf (e.cells schema)) (disk.file? ledger.currentFile))
        (schema.header :: entries.map (·.cells schema) ++ [e.cells schema]) := by
    cases hfile : disk.file? ledger.currentFile with
    | none =>
      refine ⟨[], by simp, Ledger.lines_continued hs.many (e.length_cells schema) ⟨?_, ?_⟩⟩
      · intro _
        rfl
      · simp
    | some t =>
      rw [hcurrent] at hfile
      obtain ⟨entries, hentries, hlines⟩ := h.files disk h.present opened t hfile
      refine ⟨entries, hentries, Ledger.lines_continued hs.many (e.length_cells schema) ⟨by simp, ?_⟩⟩
      intro t' ht'
      exact Option.some.inj ht' ▸ hlines
  refine ⟨entries ++ [e], ?_, by simpa using hlines⟩
  intro e' he'
  rcases List.mem_append.1 he' with he' | he'
  · exact List.mem_append_left _ (hentries e' he')
  · exact List.mem_append_right _ he'

/-- The files after a line with the cells of an entry. -/
theorem files_of_lineWritten (hs : schema.Standard)
    (h : Intact settings schema history past ledger disk) {opened : Instant}
    (hcurrent : ledger.currentFile = ledger.pathAt opened) {e : Entry}
    (hwritten : LineWritten schema ledger.currentFile (lineOf (e.cells schema)) disk disk') :
    ∀ later ∈ past ++ [disk'], ∀ now t, later.file? (ledger.pathAt now) = some t →
      ∃ entries : List Entry, (∀ e' ∈ entries, e' ∈ history ++ [e]) ∧
        Csv.Lines t (schema.header :: entries.map (·.cells schema)) := by
  have hbefore : ∀ before ∈ past, ∀ now t, before.file? (ledger.pathAt now) = some t →
      ∃ entries : List Entry, (∀ e' ∈ entries, e' ∈ history ++ [e]) ∧
        Csv.Lines t (schema.header :: entries.map (·.cells schema)) := by
    intro before hmem now t hfile
    obtain ⟨entries, hentries, hlines⟩ := h.files before hmem now t hfile
    exact ⟨entries, fun e' he' => List.mem_append_left _ (hentries e' he'), hlines⟩
  intro later hlater now t ht
  rcases List.mem_append.1 hlater with hlater | hlater
  · exact hbefore later hlater now t ht
  · obtain rfl := List.mem_singleton.1 hlater
    rcases hwritten.file?_cases ht with hfile | ⟨place, -, -, rfl⟩
    · exact hbefore disk h.present now t hfile
    · exact h.lines_continued hs hcurrent e

/-- A line leaves no unfinished file. -/
theorem finished_of_lineWritten (hs : schema.Standard)
    (h : Intact settings schema history past ledger disk) {opened : Instant}
    (hcurrent : ledger.currentFile = ledger.pathAt opened) {line : Text}
    (hwritten : LineWritten schema ledger.currentFile line disk disk') :
    ∀ later ∈ past ++ [disk'], (0 : UInt8) ∉ ledger.settings.outputDirectory → ∀ now,
      later.file? (ledger.pathAt now ++ ".tmp") = none := by
  intro later hlater hzero now
  rcases List.mem_append.1 hlater with hlater | hlater
  · exact h.finished later hlater hzero now
  · obtain rfl := List.mem_singleton.1 hlater
    have hplain : FileName.IsPlain ledger.schema.recordType := h.schema_eq ▸ hs.plain
    have hname := FileName.isName_ofInstant hplain
    rw [Option.eq_none_iff_forall_ne_some]
    intro t ht
    rcases hwritten.file?_cases ht with hfile | ⟨place, hplace, hplace', -⟩
    · rw [h.finished disk h.present hzero now] at hfile
      exact absurd hfile (by simp)
    -- the file in use and an unfinished one have different places
    · rw [hcurrent, pathAt] at hplace'
      rw [pathAt, ← Path.join_append] at hplace
      exact FileName.ofInstant_ne_append_tmp _ _ _ (Disk.place?_join_inj hzero (hname opened)
        (FileName.isName_append_tmp (hname now)) hplace' hplace)

/-- A row that is written. -/
theorem written (hs : schema.Standard) (h : Intact settings schema history past ledger disk)
    {opened : Instant} (hcurrent : ledger.currentFile = ledger.pathAt opened) {e : Entry}
    (hsequence : e.receipt.sequence = ledger.nextSequence) {size : Nat} {log : List Log.Entry}
    (hwrite : ledger.writeLine disk (lineOf (e.cells schema)) = .ok (disk', size, log)) :
    Intact settings schema (history ++ [e]) (past ++ [disk'])
      { ledger with
        nextSequence := ledger.nextSequence + 1, currentSize := size, lastWriteFailed := false }
      disk' := by
  have hwritten := lineWritten_of_writeLine hwrite
  rw [h.schema_eq] at hwritten
  have hfinished := h.finished_of_lineWritten hs hcurrent hwritten
  exact ⟨h.settings_eq, h.schema_eq, .inr ⟨opened, hcurrent⟩, h.counted.append hsequence rfl, by simp,
    h.files_of_lineWritten hs hcurrent hwritten, hfinished⟩

theorem append (hs : schema.Standard) (h : Intact settings schema history past ledger disk)
    (now : Instant) (row : Row) :
    Intact settings schema (history ++ entryOf row (ledger.append disk now row).result)
      (past ++ [(ledger.append disk now row).state.2]) (ledger.append disk now row).state.1
      (ledger.append disk now row).state.2 := by
  cases ledger.append_outcome disk now row with
  | refused e hresult hstate =>
    rw [hresult, hstate, entryOf, List.append_nil]
    exact h.again
  | unplaced e hresult hstate =>
    rw [hresult, hstate, entryOf, List.append_nil]
    exact h.countFailure.again
  | unwritten e chosen hchoice hwrite hresult hstate =>
    rw [hresult, hstate, entryOf, List.append_nil]
    exact (h.choice hs hchoice).1.countFailure.again
  | written chosen disk' size log hnames hchoice hwrite hresult hstate =>
    obtain ⟨hchosen, opened, hcurrent⟩ := h.choice hs hchoice
    rw [hresult, hstate, entryOf]
    rw [h.schema_eq] at hwrite
    exact hchosen.written hs hcurrent rfl hwrite

end Intact

theorem intact_of_interrupted (hs : schema.Standard)
    (h : Interrupted settings schema history past ledger disk) :
    Intact settings schema history past ledger disk := by
  induction h with
  | start origin horigin =>
    refine ⟨rfl, rfl, .inl rfl, ⟨by simp, fun _ => rfl⟩, List.mem_singleton_self origin, ?_, ?_⟩
    · intro earlier hearlier now t ht
      obtain rfl := List.mem_singleton.1 hearlier
      obtain ⟨before, hbefore, -⟩ := horigin.files now t ht
      exact absurd hbefore List.not_mem_nil
    · intro earlier hearlier
      obtain rfl := List.mem_singleton.1 hearlier
      exact horigin.finished
  | disturb _ disk' hdisk ih => exact ih.disturb hdisk
  | append _ now row ih => exact ih.append hs now row

/-! ## Disks that disturb nothing -/

/-- A directory without files of the ledger is one to begin with. -/
theorem undisturbed_of_fileNames (hs : schema.Standard) {names : List Text}
    (hnames : disk.fileNames settings.outputDirectory = .ok names)
    (hfree : ∀ now, FileName.ofInstant schema.recordType now ∉ names ∧
      FileName.ofInstant schema.recordType now ++ ".tmp" ∉ names) :
    Undisturbed { settings, schema } [] disk := by
  have hname := FileName.isName_ofInstant hs.plain
  constructor
  case files =>
    intro now t ht
    rw [pathAt, Disk.file?_join_of_not_mem hnames (hname now) (hfree now).1] at ht
    exact absurd ht (by simp)
  case finished =>
    intro _ now
    rw [pathAt, ← Path.join_append]
    exact Disk.file?_join_of_not_mem hnames (FileName.isName_append_tmp (hname now)) (hfree now).2

/-- A directory that is removed or blocked holds no file of the ledger. -/
theorem Intact.undisturbed_of_missing (hs : schema.Standard)
    (h : Intact settings schema history past ledger disk)
    (hzero : (0 : UInt8) ∉ settings.outputDirectory) (hne : settings.outputDirectory ≠ [])
    (hdirectory : disk'.isDirectory settings.outputDirectory = false) :
    Undisturbed ledger past disk' := by
  have hnone : ∀ name, Path.IsName name →
      disk'.file? (Path.join ledger.settings.outputDirectory name) = none := by
    intro name hname
    rw [h.settings_eq]
    exact Disk.file?_join_of_not_isDirectory hzero hne hname hdirectory
  have hname : ∀ now, Path.IsName (FileName.ofInstant ledger.schema.recordType now) := by
    rw [h.schema_eq]
    exact FileName.isName_ofInstant hs.plain
  constructor
  case files =>
    intro now t ht
    rw [pathAt, hnone _ (hname now)] at ht
    exact absurd ht (by simp)
  case finished =>
    intro _ now
    rw [pathAt, ← Path.join_append]
    exact hnone _ (FileName.isName_append_tmp (hname now))

/-- At every point of a run that began without ledger files: the entries have the numbers from one on in the
order in which they were written, as long as there are numbers left; no unfinished file is there; and another
row is written only if its names are the business columns, and else leaves the disk and the last number as
they are. -/
theorem numbers_of_interrupted (hschema : schema ∈ Schema.builtin)
    (h : Interrupted settings schema history past ledger disk) :
    (history.length < 2 ^ 64 →
      history.map (·.receipt.sequence.toNat) = List.range' 1 history.length) ∧
    ((0 : UInt8) ∉ settings.outputDirectory → ∀ now,
      disk.file? (ledger.pathAt now ++ ".tmp") = none) ∧
    ∀ now row,
      (∀ receipt, (ledger.append disk now row).result = .ok receipt →
        ∀ name, row.contains name = true ↔ name ∈ schema.recordNames) ∧
      (∀ e, (ledger.append disk now row).result = .error e →
        (ledger.append disk now row).state.2 = disk ∧
          (ledger.append disk now row).state.1.lastSequence = ledger.lastSequence) := by
  have hintact := intact_of_interrupted (Schema.standard_of_mem_builtin hschema) h
  refine ⟨hintact.counted.numbers, ?_, ?_⟩
  · rw [← hintact.settings_eq]
    exact hintact.finished disk hintact.present
  · intro now row
    refine ⟨?_, fun e => append_error⟩
    intro receipt hresult
    cases ledger.append_outcome disk now row with
    | refused _ herror _ => simp [herror] at hresult
    | unplaced _ herror _ => simp [herror] at hresult
    | unwritten _ _ _ _ herror _ => simp [herror] at hresult
    | written _ _ _ _ hnames _ _ _ _ =>
      rw [hintact.schema_eq,
        checkNames_eq_ok_iff (Schema.standard_of_mem_builtin hschema).nodup] at hnames
      exact fun name => ⟨hnames.2 name, hnames.1 name⟩

/-- A directory that a file blocks when another file of the ledger is due, and that is put back: the row in
between fails and leaves nothing behind, and those before and after it are numbered one and two. -/
theorem numbers_of_interrupted_blocked :
    let ledger : Ledger := { settings := { outputDirectory := "d" }, schema := .reentryDecisions }
    let origin : Disk := { working := .directory "d" .empty .empty }
    let blocked : Disk := { working := .file "d" (.ofText "blocked") .empty }
    let row : Row := .ofList (Schema.reentryDecisions.recordNames.map (·, "1"))
    let later : Instant := 1768471200000 + 25 * Instant.millisPerHour
    let first := ledger.append origin 1768471200000 row
    let failed := first.state.1.append blocked later row
    let second := failed.state.1.append first.state.2 later row
    (entryOf row first.result ++ entryOf row failed.result ++ entryOf row second.result).map
        (·.receipt.sequence.toNat) = [1, 2] ∧
      failed.state.2 = blocked ∧ failed.state.1.lastSequence = first.state.1.lastSequence ∧
      second.state.2.file? (second.state.1.pathAt later ++ ".tmp") = none := by
  intro ledger origin blocked row later first failed second
  have hschema : Schema.reentryDecisions ∈ Schema.builtin := by decide
  have hs := Schema.standard_of_mem_builtin hschema
  have hlength : (entryOf row first.result ++ entryOf row failed.result ++
      entryOf row second.result).length = 2 := by decide +kernel
  have hfails : (entryOf row failed.result).length = 0 := by decide +kernel
  have hgone : blocked.isDirectory ledger.settings.outputDirectory = false := by decide +kernel
  -- the steps are not to be evaluated from here on
  have hfirst : ledger.append origin 1768471200000 row = first := rfl
  have hfailed : first.state.1.append blocked later row = failed := rfl
  have hsecond : failed.state.1.append first.state.2 later row = second := rfl
  clear_value second failed first
  have hrun : Interrupted ledger.settings ledger.schema [] [origin] ledger origin :=
    .start origin (undisturbed_of_fileNames hs rfl fun _ => ⟨List.not_mem_nil, List.not_mem_nil⟩)
  replace hrun := hrun.append 1768471200000 row
  rw [hfirst, List.nil_append] at hrun
  have hblocked := hrun.disturb blocked
    ((intact_of_interrupted hs hrun).undisturbed_of_missing hs (by decide) (by decide) hgone)
  replace hrun := hblocked.append later row
  rw [hfailed] at hrun
  replace hrun := hrun.disturb first.state.2
    ((intact_of_interrupted hs hrun).undisturbed_of_mem (by simp))
  replace hrun := hrun.append later row
  rw [hsecond] at hrun
  obtain ⟨hnumbers, hfinished, -⟩ := numbers_of_interrupted hschema hrun
  obtain ⟨-, -, happend⟩ := numbers_of_interrupted hschema hblocked
  have herror := (happend later row).2
  rw [hfailed] at herror
  cases hresult : failed.result with
  | ok receipt =>
    rw [hresult] at hfails
    exact absurd hfails (by simp [entryOf])
  | error e =>
    obtain ⟨hdisk, hlast⟩ := herror e hresult
    rw [hresult] at hlength hnumbers
    rw [hlength] at hnumbers
    exact ⟨hnumbers (by decide), hdisk, hlast, hfinished (by decide) later⟩

end Ledger

end TradeReentry
