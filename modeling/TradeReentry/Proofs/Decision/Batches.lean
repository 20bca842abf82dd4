import TradeReentry.Proofs.Decision.Answers
import TradeReentry.Proofs.Ledger.Placements

/-!
# Answering one context after the other

Every answer is about the trade of its context (`Processor.isAbout_answer`). A processor that records adds
one row for each answer that is processed, and one without a ledger leaves the files alone
(`Processor.rowEffect_answer`, `Processor.disk_answer`), so that after many contexts the files have gone on with
the processed answers in their order (`Processor.recording_answerAll`). No file of decisions becomes a directory
on the way (`Processor.unblocked_answer`).
-/

namespace TradeReentry

/-- Whether a response names the trade of a context. -/
def Response.IsAbout (r : Response) (c : Context) : Prop := r.tradeId = c.tradeId ∧ r.symbol = c.symbol

namespace Processor

open Files

variable {p : Processor} {disk : Disk} {clock : Readings} {context : Context}

/-! ## The trade of an answer -/

theorem isAbout_identify {v : Vocabulary} {c : Context} {r r' : Response}
    (h : identify v c r = .ok r') (hr : r.IsAbout context) : r'.IsAbout context := by
  obtain ⟨id, -, h⟩ := bind_eq_ok_iff.1 h
  obtain ⟨position, -, h⟩ := bind_eq_ok_iff.1 h
  exact Except.ok.inj h ▸ hr

theorem isAbout_chooseAction (c : Context) (resolved : ResolvedParameters) {r : Response}
    (hr : r.IsAbout context) : (chooseAction c resolved r).IsAbout context := by
  rw [chooseAction]
  split <;> exact hr

theorem isAbout_record {now : Instant} {r r' : Response}
    (h : (p.record disk now r).result = .ok r') (hr : r.IsAbout context) : r'.IsAbout context := by
  unfold record at h
  split at h
  · exact Except.ok.inj h ▸ hr
  · obtain ⟨receipt, -, rfl⟩ := map_eq_ok_iff.1 h
    exact hr

theorem isAbout_conclude {r : Response} (hr : r.IsAbout context) (log : List Log.Entry) :
    (p.conclude disk clock r log).result.IsAbout context := by
  unfold conclude
  dsimp only
  split
  · exact hr
  · next hrecord =>
    obtain ⟨htrade, hsymbol⟩ := isAbout_record hrecord hr
    exact ⟨htrade, hsymbol⟩

theorem isAbout_decide {c : Context} {r : Response} (hr : r.IsAbout context) :
    (p.decide disk clock c r).result.IsAbout context := by
  unfold decide
  dsimp only
  split
  · exact hr
  · next hidentify =>
    obtain ⟨htrade, hsymbol⟩ := isAbout_chooseAction c
      (p.resolver.resolve (requestOf c (classify p.settings c r))).result
      (isAbout_identify hidentify hr)
    refine isAbout_conclude ?_ _
    exact ⟨htrade, hsymbol⟩

/-- An answer is about the trade of its context. -/
theorem isAbout_answer (p : Processor) (disk : Disk) (clock : Readings) (context : Context) :
    (p.answer disk clock context).result.IsAbout context := by
  unfold answer
  dsimp only
  split
  · exact ⟨rfl, rfl⟩
  · split
    · exact ⟨rfl, rfl⟩
    · split
      · exact ⟨rfl, rfl⟩
      · exact isAbout_decide ⟨rfl, rfl⟩

theorem isAbout_answerAll (p : Processor) (disk : Disk) (entries : List (Readings × Context)) :
    List.Forall₂ (fun entry r => r.IsAbout entry.2) entries (p.answerAll disk entries).result := by
  induction entries generalizing p disk with
  | nil => exact .nil
  | cons entry rest ih => exact .cons (isAbout_answer ..) (ih ..)

/-! ## Rows -/

theorem disk_answer (hledger : p.ledger? = none) (disk : Disk) (clock : Readings) (context : Context) :
    (p.answer disk clock context).state.1.ledger? = none ∧
      (p.answer disk clock context).state.2 = disk := by
  cases effect_answer p disk clock context with
  | unasked _ _ hsame hdisk => exact ⟨hsame.trans hledger, hdisk⟩
  | refused _ _ _ _ _ hsame hdisk => exact ⟨hsame.trans hledger, hdisk⟩
  | unidentified _ _ _ _ hsame hdisk => exact ⟨hsame.trans hledger, hdisk⟩
  | unwritten _ _ _ _ _ hpresent => simp [hledger] at hpresent
  | recorded _ _ _ _ _ hpresent => simp [hledger] at hpresent
  | unrecorded _ _ _ _ _ _ hnone hdisk => exact ⟨hnone, hdisk⟩

/-- A processor without a ledger leaves the files alone. -/
theorem disk_answerAll (hledger : p.ledger? = none) (disk : Disk) (entries : List (Readings × Context)) :
    (p.answerAll disk entries).state.2 = disk := by
  induction entries generalizing p disk with
  | nil => rfl
  | cons entry rest ih =>
    obtain ⟨hnone, hdisk⟩ := disk_answer hledger disk entry.1 entry.2
    exact (ih hnone _).trans hdisk

/-- Whether a processor records decisions in a directory. -/
def RecordsIn (p : Processor) (directory : Text) : Prop :=
  ∃ ledger, p.ledger? = some ledger ∧ ledger.schema = .reentryDecisions ∧
    ledger.settings.outputDirectory = directory ∧ ledger.InUse

/-- The name of a file of decisions that is opened at an instant. -/
def fileNameAt (opened : Instant) : Text :=
  Ledger.FileName.ofInstant Schema.reentryDecisions.recordType opened

theorem isName_fileNameAt (opened : Instant) : Path.IsName (fileNameAt opened) :=
  Ledger.FileName.isName_ofInstant (Ledger.FileName.isPlain_of_mem_builtin List.mem_cons_self) opened

/-- A decision that was recorded, when, and when its file was opened. -/
structure Recorded where
  response : Response
  written : Instant
  opened : Instant
deriving DecidableEq, Repr

/-- The row of a decision that was recorded, with the number and the checksum that the response tells. -/
def Recorded.cells (record : Recorded) : List Text :=
  Ledger.Receipt.cells .reentryDecisions {
    sequence := record.response.sequence, checksum := record.response.checksum
    path := fileNameAt record.opened, timestamp := record.written.isoText } record.response.toRow

theorem Recorded.length_cells (record : Recorded) :
    record.cells.length = Schema.reentryDecisions.header.length := by
  simp [cells, Ledger.Receipt.cells]

/-- The place of the row of a decision that was recorded. -/
def Recorded.placement (record : Recorded) : Ledger.Placement := ⟨fileNameAt record.opened, record.cells⟩

/-- What an answer does to the files of a processor that records: a processed one is a row more in a file,
and any other one leaves the files alone. -/
inductive RowEffect (directory : Text) (disk : Disk) (clock : Readings)
    (step : Step (Processor × Disk) Response) : Prop where
  | added (opened : Instant) (hstatus : step.result.status = .processed)
      (hzero : (0 : UInt8) ∉ directory)
      (hwritten : Ledger.LineWritten .reentryDecisions (Path.join directory (fileNameAt opened))
        (Ledger.lineOf (Recorded.cells ⟨step.result, clock.writing, opened⟩)) disk step.state.2)
  | none (hstatus : step.result.status ≠ .processed) (hdisk : step.state.2 = disk)

theorem recordsIn_append {ledger : Ledger} (hschema : ledger.schema = .reentryDecisions)
    (huse : ledger.InUse) (disk : Disk) (now : Instant) (row : Row) {q : Processor}
    (hledger : q.ledger? = some (ledger.append disk now row).state.1) :
    q.RecordsIn ledger.settings.outputDirectory := by
  obtain ⟨hschema', hsettings, huse'⟩ := Ledger.inUse_append huse disk now row
  exact ⟨_, hledger, hschema'.trans hschema, by rw [hsettings], huse'⟩

theorem rowEffect_answer {directory : Text} (h : p.RecordsIn directory)
    (hdirectory : disk.isDirectory directory = true) (clock : Readings) (context : Context) :
    (p.answer disk clock context).state.1.RecordsIn directory ∧
      RowEffect directory disk clock (p.answer disk clock context) := by
  obtain ⟨ledger, hledger, hschema, rfl, huse⟩ := h
  have hkept : ∀ q : Processor, q.ledger? = p.ledger? → q.RecordsIn ledger.settings.outputDirectory :=
    fun q hsame => ⟨ledger, hsame.trans hledger, hschema, rfl, huse⟩
  cases effect_answer p disk clock context with
  | unasked hstatus _ hsame hdisk => exact ⟨hkept _ hsame, .none hstatus hdisk⟩
  | refused _ _ _ hstatus _ hsame hdisk => exact ⟨hkept _ hsame, .none hstatus hdisk⟩
  | unidentified _ _ hstatus _ hsame hdisk => exact ⟨hkept _ hsame, .none hstatus hdisk⟩
  | unwritten decided present e _ _ hpresent happend hstatus _ hsame hdisk =>
    obtain rfl : ledger = present := Option.some.inj (hledger.symm.trans hpresent)
    exact ⟨recordsIn_append hschema huse _ _ _ hsame,
      .none hstatus (hdisk.trans (Ledger.append_error happend).1)⟩
  | recorded decided present receipt _ _ hpresent happend hresult _ hsame hdisk =>
    obtain rfl : ledger = present := Option.some.inj (hledger.symm.trans hpresent)
    obtain ⟨-, htime, hzero, opened, hopened, hwritten⟩ :=
      Ledger.append_written huse hdirectory happend
    rw [hschema, hopened, Ledger.pathAt, hschema, ← hdisk] at hwritten
    have hcells : Ledger.Receipt.cells .reentryDecisions receipt decided.toRow =
        Recorded.cells ⟨(p.answer disk clock context).result, clock.writing, opened⟩ := by
      rw [hresult]
      simp only [Recorded.cells, Ledger.Receipt.cells, htime]
      rfl
    rw [hcells] at hwritten
    exact ⟨recordsIn_append hschema huse _ _ _ hsame, .added opened (by rw [hresult]) hzero hwritten⟩
  | unrecorded _ _ _ hmissing => simp [hledger] at hmissing

/-! ## Files of decisions that are no directories -/

/-- How a processor stands to files among which no answer of it meets a directory: where it records, no file
of decisions is one, and its directory is there. -/
inductive Unblocked (directory : Text) (p : Processor) (disk : Disk) : Prop where
  | recording (hledger : p.RecordsIn directory) (hdirectory : disk.isDirectory directory = true)
      (hfiles : ∀ opened, disk.isDirectory (Path.join directory (fileNameAt opened)) = false)
  | idle (hledger : p.ledger? = none)

theorem abortLog?_of_unblocked {directory : Text} (h : Unblocked directory p disk) (clock : Readings)
    (context : Context) : p.abortLog? disk clock context = none := by
  unfold abortLog?
  cases h with
  | idle hledger => simp [hledger]
  | recording hledger _ hfiles =>
    obtain ⟨ledger, hledger, hschema, rfl, -⟩ := hledger
    have hfile : disk.isDirectory (ledger.pathAt clock.writing) = false := by
      rw [Ledger.pathAt, hschema]
      exact hfiles clock.writing
    cases p.decision? clock context with
    | none => simp [hledger]
    | some decided => simp [hledger, Ledger.meetsDirectory, hfile]

/-- An answer makes no file of decisions a directory. -/
theorem unblocked_answer {directory : Text} (h : Unblocked directory p disk) (clock : Readings)
    (context : Context) :
    Unblocked directory (p.answer disk clock context).state.1 (p.answer disk clock context).state.2 := by
  cases h with
  | idle hledger => exact .idle (disk_answer hledger disk clock context).1
  | recording hledger hdirectory hfiles =>
    obtain ⟨hnext, hrow⟩ := rowEffect_answer hledger hdirectory clock context
    cases hrow with
    | none _ hdisk =>
      rw [hdisk]
      exact .recording hnext hdirectory hfiles
    | added _ _ _ hwritten =>
      refine .recording hnext ?_ fun opened => ?_
      · rw [hwritten.isDirectory_eq, hdirectory]
      · rw [hwritten.isDirectory_eq, hfiles opened]

/-- How the files of a directory stand to answers that were given one after the other, each while the clock
ran: they have gone on with the rows of the processed ones, in order. -/
structure Recording (directory : Text) (clocks : List Readings) (responses : List Response)
    (disk disk' : Disk) (records : List Recorded) : Prop where
  responses_eq : records.map (·.response) = responses.filter (·.status = .processed)
  written : (records.map (·.written)).Sublist (clocks.map (·.writing))
  rows : Ledger.RowsAdded .reentryDecisions directory (records.map (·.placement)) disk disk'

namespace Recording

variable {directory : Text} {clocks : List Readings} {responses : List Response}
  {disk' disk'' : Disk} {records : List Recorded} {r : Response}

theorem nil (directory : Text) (disk : Disk) : Recording directory [] [] disk disk [] :=
  ⟨rfl, .slnil, .nil disk⟩

/-- An answer that is not processed leaves no row. -/
theorem cons_of_ne (h : Recording directory clocks responses disk disk' records)
    (hstatus : r.status ≠ .processed) (clock : Readings) :
    Recording directory (clock :: clocks) (r :: responses) disk disk' records := by
  refine ⟨?_, h.written.cons _, h.rows⟩
  rw [h.responses_eq, List.filter_cons_of_neg (by simpa using hstatus)]

/-- An answer that is processed leaves its row in front. -/
theorem cons (h : Recording directory clocks responses disk' disk'' records)
    (hstatus : r.status = .processed) (hzero : (0 : UInt8) ∉ directory) {opened : Instant}
    (hwritten : Ledger.LineWritten .reentryDecisions (Path.join directory (fileNameAt opened))
      (Ledger.lineOf (Recorded.cells ⟨r, clock.writing, opened⟩)) disk disk') :
    Recording directory (clock :: clocks) (r :: responses) disk disk''
      (⟨r, clock.writing, opened⟩ :: records) where
  responses_eq := by
    rw [List.filter_cons_of_pos (by simpa using hstatus), List.map_cons, h.responses_eq]
  written := h.written.cons_cons _
  rows := h.rows.cons hzero (isName_fileNameAt opened) hwritten

/-- The rows are read back from the files. -/
theorem recordsAdded (h : Recording directory clocks responses disk disk' records) :
    Ledger.RecordsAdded .reentryDecisions directory (records.map (·.placement)) disk disk' := by
  refine h.rows.recordsAdded (by decide) fun row hrow => ?_
  obtain ⟨record, -, rfl⟩ := List.mem_map.1 hrow
  exact record.length_cells

end Recording

/-- After many contexts the files of a processor that records have gone on with the rows of the processed
answers, in order. -/
theorem recording_answerAll {directory : Text} (h : p.RecordsIn directory)
    (hdirectory : disk.isDirectory directory = true) (entries : List (Readings × Context)) :
    ∃ records, Recording directory (entries.map (·.1)) (p.answerAll disk entries).result disk
      (p.answerAll disk entries).state.2 records := by
  induction entries generalizing p disk with
  | nil => exact ⟨[], .nil directory disk⟩
  | cons entry rest ih =>
    obtain ⟨clock, context⟩ := entry
    obtain ⟨hnext, hrow⟩ := rowEffect_answer h hdirectory clock context
    simp only [answerAll, List.map_cons]
    generalize p.answer disk clock context = step at hnext hrow ⊢
    cases hrow with
    | none hstatus hdisk =>
      subst hdisk
      obtain ⟨records, hrecords⟩ := ih hnext hdirectory
      exact ⟨records, hrecords.cons_of_ne hstatus clock⟩
    | added opened hstatus hzero hwritten =>
      obtain ⟨records, hrecords⟩ := ih hnext (by rw [hwritten.isDirectory_eq, hdirectory])
      exact ⟨_, hrecords.cons hstatus hzero hwritten⟩

end Processor

end TradeReentry
