import TradeReentry.Cli.Run
import TradeReentry.Proofs.Cli.Batches
import TradeReentry.Proofs.Service

/-!
# Processing a file of closed trades

The command answers every row of its input or none. Where the settings do not load, the service does not get
ready or the input is not accepted as a whole, it fails without a decision and without a row in a file
(`Refused`). Otherwise it prints one decision for each row, in order, and the files of the ledger go on with
the decisions that were processed (`Decided`). The input and the files of the ledger are read by a reader that
ends the program on a directory, so that there is a third way for a run that meets one in their place
(`MeetsDirectory`, `Aborted`). `ended_runDuring` says that each run without one ends in one of the two ways, as
its input tells.
-/

namespace TradeReentry.Cli

/-- What a run prints itself, in order; its log is something else. -/
def Run.printed (run : Run) : List Text :=
  run.output.filterMap fun
    | .out text => some text
    | .err _ | .log _ => none

/-! ## How a run ends -/

/-- What has to hold of a command line and the files for the input to be read. -/
structure Ready (arguments : Arguments) (disk : Disk) (clock : Clock) (settings : Settings)
    (service : Service) (prepared : Disk) : Prop where
  loaded : (loadSettings arguments disk).1 = .ok settings
  ready : (Service.prepare { settings } disk clock.loading).result = .ok ()
  state : (Service.prepare { settings } disk clock.loading).state = (service, prepared)
  named : arguments.inputPath ≠ []

/-- What has to hold of a command line and the files for rows to be decided. -/
structure Accepted (arguments : Arguments) (disk : Disk) (clock : Clock) (settings : Settings)
    (service : Service) (prepared : Disk) (header : List Text) (rows : List (List Text)) : Prop
    extends Ready arguments disk clock settings service prepared where
  table : Batch.HoldsTable prepared arguments.inputPath header rows
  rows : ∀ cells ∈ rows, Batch.IsAccepted header cells

/-- Where a service that is ready meets a directory: at the path of its input, or, on the way through the
contexts of the input, in place of a file of the ledger. -/
inductive Blocked (service : Service) (prepared : Disk) (clock : Clock) (inputPath : Text) : Prop where
  | input (hdirectory : prepared.isDirectory inputPath = true)
  | ledger (contexts : List Context) (hcontexts : Batch.ofFile prepared inputPath = .ok contexts)
      (hmeets : service.MeetsDirectory prepared (contexts.mapIdx (clock.answering ·, ·)))

/-- Whether a run comes to a directory where it reads a file as a whole. -/
def MeetsDirectory (arguments : Arguments) (disk : Disk) (clock : Clock) : Prop :=
  ∃ settings service prepared, Ready arguments disk clock settings service prepared ∧
    Blocked service prepared clock arguments.inputPath

/-- A run that an error ends which nothing catches. -/
structure Aborted (run : Run) : Prop where
  exit : run.exit.code = 134
  printed : run.printed = []

/-- A run that decides nothing: it fails, prints no decision, and leaves every file as it is. -/
structure Refused (disk : Disk) (run : Run) : Prop where
  exit : run.exit.code = 1 ∨ run.exit.code = 2
  printed : run.printed = []
  files : Disk.Grown disk run.disk

/-- A run that decides every row. -/
structure Decided (settings : LedgerSettings) (inputPath : Text) (disk : Disk) (clock : Clock)
    (service : Service) (prepared : Disk) (header : List Text) (rows : List (List Text)) (run : Run)
    (responses : List Response) : Prop where
  /-- The decisions are the answers of the service to the contexts of the input, one after the other. -/
  answered : ∃ contexts, Batch.ofFile prepared inputPath = .ok contexts ∧
    (service.answerAll prepared (contexts.mapIdx (clock.answering ·, ·))).result = responses
  /-- There is a decision for each row, in order, with the trade and the symbol of the row. -/
  named : List.Forall₂ (fun cells r => r.tradeId = Batch.cellUnder "trade_id" header cells ∧
    r.symbol = Batch.cellUnder "symbol" header cells) rows responses
  printed : run.printed = responses.map fun r => (r.toJson ++ "\n" : Text)
  /-- Making the service ready makes directories and changes no file. -/
  grown : Disk.Grown disk prepared
  /-- The files of the ledger go on with the decisions that were processed, in order, with the numbers and
  the checksums that are printed, and this is read back from them. -/
  recorded : settings.enabled = true → ∃ records, Processor.Recording settings.outputDirectory
      ((List.range rows.length).map clock.answering) responses prepared run.disk records ∧
    Ledger.RecordsAdded .reentryDecisions settings.outputDirectory (records.map (·.placement)) prepared
      run.disk
  unrecorded : settings.enabled = false → run.disk = disk
  /-- A decision that could not be written tells why, which is never that a file cannot be read. -/
  told : ∀ r ∈ responses, r.status = .writeFailure →
    ∃ e : Ledger.WriteError, (∀ path, e ≠ .unreadable path) ∧ r.reason = "write_failure: " ++ e.message
  exit : run.exit = .success ∨ run.exit = .failure
  success_iff : run.exit.code = 0 ↔
    ∀ r ∈ responses, r.status ≠ .invalidContext ∧ r.status ≠ .writeFailure

/-- How a run ends that meets no directory, as the command line and the files tell. -/
inductive Ended (arguments : Arguments) (disk : Disk) (clock : Clock) (run : Run) : Prop where
  | refused (hnot : ∀ settings service prepared header rows,
        ¬Accepted arguments disk clock settings service prepared header rows)
      (h : Refused disk run)
  | decided (settings : Settings) (service : Service) (prepared : Disk) (header : List Text)
      (rows : List (List Text)) (responses : List Response)
      (haccepted : Accepted arguments disk clock settings service prepared header rows)
      (h : Decided settings.ledger arguments.inputPath disk clock service prepared header rows run
        responses)

/-- How a run ends, whether or not it meets a directory. -/
structure Outcome (arguments : Arguments) (disk : Disk) (clock : Clock) (run : Run) : Prop where
  ended : ¬MeetsDirectory arguments disk clock → Ended arguments disk clock run
  aborted : MeetsDirectory arguments disk clock → Aborted run

variable {arguments : Arguments} {disk : Disk} {clock : Clock} {run run' : Run}

/-- How a run ends does not depend on its log. -/
theorem Ended.congr (h : Ended arguments disk clock run) (hexit : run'.exit = run.exit)
    (hprinted : run'.printed = run.printed) (hdisk : run'.disk = run.disk) :
    Ended arguments disk clock run' := by
  cases h with
  | refused hnot h => exact .refused hnot ⟨hexit ▸ h.exit, hprinted ▸ h.printed, hdisk ▸ h.files⟩
  | decided settings service prepared header rows responses haccepted h =>
    refine .decided settings service prepared header rows responses haccepted ?_
    exact ⟨h.answered, h.named, hprinted ▸ h.printed, h.grown, hdisk ▸ h.recorded,
      hdisk ▸ h.unrecorded, h.told, hexit ▸ h.exit, hexit ▸ h.success_iff⟩

theorem Outcome.congr (h : Outcome arguments disk clock run) (hexit : run'.exit = run.exit)
    (hprinted : run'.printed = run.printed) (hdisk : run'.disk = run.disk) :
    Outcome arguments disk clock run' where
  ended := fun hnot => (h.ended hnot).congr hexit hprinted hdisk
  aborted := fun hmeets => ⟨hexit ▸ (h.aborted hmeets).exit, hprinted ▸ (h.aborted hmeets).printed⟩

/-- A run whose input is not reached meets no directory and decides nothing. -/
theorem outcome_of_not_ready
    (hnot : ∀ settings service prepared, ¬Ready arguments disk clock settings service prepared)
    (h : Refused disk run) : Outcome arguments disk clock run where
  ended := fun _ => .refused (fun _ _ _ _ _ haccepted => hnot _ _ _ haccepted.toReady) h
  aborted := fun ⟨settings, service, prepared, hready, _⟩ =>
    absurd hready (hnot settings service prepared)

/-! ## What is printed -/

theorem filterMap_logged {f : Output → Option Text} (hlog : ∀ entry, f (.log entry) = none)
    (entries : List Log.Entry) : (logged entries).filterMap f = [] := by
  simp [logged, hlog]

/-- A run that logs something first prints the same. -/
theorem printed_logged (entries : List Log.Entry) (run : Run) :
    ({ run with output := logged entries ++ run.output } : Run).printed = run.printed := by
  rw [Run.printed, List.filterMap_append, filterMap_logged fun _ => rfl, List.nil_append, Run.printed]

theorem printed_lines (exit : Exit) (entries : List Log.Entry) (disk : Disk) (responses : List Response) :
    (⟨exit, logged entries ++ responses.map fun r => line r.toJson, disk⟩ : Run).printed =
      responses.map fun r => (r.toJson ++ "\n" : Text) := by
  rw [Run.printed, List.filterMap_append, filterMap_logged fun _ => rfl, List.nil_append,
    List.filterMap_map]
  exact congrFun List.filterMap_eq_map responses

theorem Outcome.logged (h : Outcome arguments disk clock run) (entries : List Log.Entry) :
    Outcome arguments disk clock { run with output := logged entries ++ run.output } :=
  h.congr rfl (printed_logged entries run) rfl

/-! ## The contexts of the input -/

theorem map_fst_mapIdx (f : Nat → Processor.Readings) (contexts : List Context) :
    (contexts.mapIdx (f ·, ·)).map (·.1) = (List.range contexts.length).map f := by
  rw [List.mapIdx_eq_zipIdx_map, List.map_map, List.range_eq_range', ← List.zipIdx_map_snd,
    List.map_map]
  rfl

theorem map_snd_mapIdx (f : Nat → Processor.Readings) (contexts : List Context) :
    (contexts.mapIdx (f ·, ·)).map (·.2) = contexts := by
  rw [List.mapIdx_eq_zipIdx_map, List.map_map]
  exact List.zipIdx_map_fst ..

theorem forall₂_names {header : List Text} {rows : List (List Text)} {contexts : List Context}
    {responses : List Response} (h : List.Forall₂ (Batch.Names header) rows contexts)
    (h' : List.Forall₂ (fun c r => r.IsAbout c) contexts responses) :
    List.Forall₂ (fun cells r => r.tradeId = Batch.cellUnder "trade_id" header cells ∧
      r.symbol = Batch.cellUnder "symbol" header cells) rows responses := by
  induction h generalizing responses with
  | nil =>
    cases h'
    exact .nil
  | cons hnames _ ih =>
    cases h' with
    | cons habout hrest =>
      exact .cons ⟨habout.1.trans hnames.tradeId, habout.2.trans hnames.symbol⟩ (ih hrest)

/-! ## Deciding -/

/-- A run fails by a decision on an invalid context or on one that could not be written. -/
theorem exit_of_responses (responses : List Response) :
    let exit := if responses.any isFailure then Exit.failure else Exit.success
    (exit = .success ∨ exit = .failure) ∧
      (exit.code = 0 ↔ ∀ r ∈ responses, r.status ≠ .invalidContext ∧ r.status ≠ .writeFailure) := by
  intro exit
  have hfailure : responses.any isFailure = true ↔
      ¬∀ r ∈ responses, r.status ≠ .invalidContext ∧ r.status ≠ .writeFailure := by
    simp only [List.any_eq_true, isFailure, Bool.or_eq_true, decide_eq_true_eq]
    push Not
    grind
  by_cases hany : responses.any isFailure = true
  · have hexit : exit = .failure := if_pos hany
    rw [hexit]
    exact ⟨.inr rfl, ⟨nofun, fun hall => absurd hall (hfailure.1 hany)⟩⟩
  · have hexit : exit = .success := if_neg hany
    rw [hexit]
    exact ⟨.inl rfl, ⟨fun _ => not_not.1 (mt hfailure.2 hany), fun _ => rfl⟩⟩

variable {service : Service} {p : Processor} {prepared : Disk} {inputPath : Text}
  {settings : LedgerSettings} {contexts : List Context}

theorem recording_runProcess (hserves : service.Serves p)
    (hbacked : Service.Backed settings disk prepared p) (henabled : settings.enabled = true)
    (contexts : List Context) :
    ∃ records, Processor.Recording settings.outputDirectory
      ((List.range contexts.length).map clock.answering)
      (service.answerAll prepared (contexts.mapIdx (clock.answering ·, ·))).result prepared
      (service.answerAll prepared (contexts.mapIdx (clock.answering ·, ·))).state.2 records := by
  obtain ⟨hresult, hdisk⟩ :=
    Service.answerAll_of_serves hserves prepared (contexts.mapIdx (clock.answering ·, ·))
  rw [hresult, hdisk, ← map_fst_mapIdx]
  cases hbacked with
  | recording _ _ hdirectory hledger => exact Processor.recording_answerAll hledger hdirectory _
  | idle hdisabled _ _ => simp [hdisabled] at henabled

/-- An input that is read is decided, unless the answers meet a directory. -/
theorem decided_runProcess (clock : Clock) (hserves : service.Serves p)
    (hbacked : Service.Backed settings disk prepared p) (hnamed : inputPath ≠ [])
    (hnot : ¬Blocked service prepared clock inputPath)
    (hcontexts : Batch.ofFile prepared inputPath = .ok contexts) :
    ∃ header rows responses, Batch.HoldsTable prepared inputPath header rows ∧
      (∀ cells ∈ rows, Batch.IsAccepted header cells) ∧
      Decided settings inputPath disk clock service prepared header rows
        (runProcess service prepared clock inputPath) responses := by
  have hinput : prepared.isDirectory inputPath ≠ true := fun hdirectory => hnot (.input hdirectory)
  have hmeets : ¬service.MeetsDirectory prepared (contexts.mapIdx (clock.answering ·, ·)) :=
    fun hmeets => hnot (.ledger contexts hcontexts hmeets)
  obtain ⟨header, rows, htable, haccepted, hnames⟩ := Batch.table_of_ofFile hcontexts
  obtain ⟨hresult, hdisk⟩ :=
    Service.answerAll_of_serves hserves prepared (contexts.mapIdx (clock.answering ·, ·))
  have habout := p.isAbout_answerAll prepared (contexts.mapIdx (clock.answering ·, ·))
  rw [← hresult, ← List.forall₂_map_left_iff (R := fun c r => Response.IsAbout r c),
    map_snd_mapIdx] at habout
  refine ⟨header, rows, (service.answerAll prepared (contexts.mapIdx (clock.answering ·, ·))).result,
    htable, haccepted, ?_⟩
  simp only [runProcess, hcontexts, List.isEmpty_iff, hnamed, hinput, Bool.false_eq_true, if_false,
    Service.answerToEnd_of_not_meetsDirectory hmeets]
  obtain ⟨hexit, hsuccess⟩ := exit_of_responses
    (service.answerAll prepared (contexts.mapIdx (clock.answering ·, ·))).result
  exact {
    answered := ⟨contexts, hcontexts, rfl⟩
    named := forall₂_names hnames habout
    printed := printed_lines ..
    grown := hbacked.grown
    recorded := fun henabled => by
      rw [hnames.length_eq]
      obtain ⟨records, hrecords⟩ := recording_runProcess hserves hbacked henabled contexts
      exact ⟨records, hrecords, hrecords.recordsAdded⟩
    unrecorded := fun hdisabled => by
      cases hbacked with
      | recording henabled _ _ _ => simp [hdisabled] at henabled
      | idle _ hsame hledger =>
        rw [hdisk, Processor.disk_answerAll hledger, hsame]
    told := Service.writeError_of_answerAll hserves hmeets
    exit := hexit
    success_iff := hsuccess }

/-- An input that is not read has its run fail. -/
theorem refused_runProcess (hgrown : Disk.Grown disk prepared)
    (hinput : prepared.isDirectory inputPath ≠ true)
    (hnot : inputPath = [] ∨ ∃ e, Batch.ofFile prepared inputPath = .error e) :
    Refused disk (runProcess service prepared clock inputPath) := by
  by_cases hnamed : inputPath = []
  · simp only [runProcess, hnamed, List.isEmpty_nil, if_true]
    exact ⟨.inr rfl, rfl, hgrown⟩
  · obtain ⟨e, he⟩ := hnot.resolve_left hnamed
    simp only [runProcess, he, List.isEmpty_iff, hnamed, hinput, Bool.false_eq_true, if_false]
    exact ⟨.inl rfl, rfl, hgrown⟩

/-- A run that meets a directory is aborted, and prints none of the decisions before. -/
theorem aborted_runProcess (hnamed : inputPath ≠ []) (h : Blocked service prepared clock inputPath) :
    Aborted (runProcess service prepared clock inputPath) := by
  by_cases hinput : prepared.isDirectory inputPath = true
  · simp only [runProcess, hinput, List.isEmpty_iff, hnamed, if_false, if_true]
    exact ⟨rfl, rfl⟩
  · obtain hdirectory | ⟨contexts, hcontexts, hmeets⟩ := h
    · exact absurd hdirectory hinput
    · simp only [runProcess, hcontexts, List.isEmpty_iff, hnamed, hinput, Bool.false_eq_true, if_false,
        Service.result_answerToEnd_of_meetsDirectory hmeets]
      exact ⟨rfl, filterMap_logged (fun _ => rfl) _⟩

/-- The settings of a command line are unique, and so is what making the service ready leads to. -/
theorem Ready.unique {settings settings' : Settings} {service' : Service} {prepared' : Disk}
    (h : Ready arguments disk clock settings service prepared)
    (h' : Ready arguments disk clock settings' service' prepared') :
    settings' = settings ∧ service' = service ∧ prepared' = prepared := by
  obtain rfl : settings' = settings := Except.ok.inj (h'.loaded.symm.trans h.loaded)
  exact ⟨rfl, Prod.mk.inj (h'.state.symm.trans h.state)⟩

/-- A run that gets to its input meets the directories that its service does. -/
theorem Ready.meetsDirectory_iff {settings : Settings}
    (h : Ready arguments disk clock settings service prepared) :
    MeetsDirectory arguments disk clock ↔ Blocked service prepared clock arguments.inputPath := by
  refine ⟨?_, fun hblocked => ⟨settings, service, prepared, h, hblocked⟩⟩
  rintro ⟨settings', service', prepared', h', hblocked⟩
  obtain ⟨-, rfl, rfl⟩ := h.unique h'
  exact hblocked

/-- The input of a service that is ready is decided or refused. -/
theorem ended_runProcess {settings : Settings}
    (hready : Ready arguments disk clock settings service prepared) (hserves : service.Serves p)
    (hbacked : Service.Backed settings.ledger disk prepared p)
    (hnot : ¬Blocked service prepared clock arguments.inputPath) :
    Ended arguments disk clock (runProcess service prepared clock arguments.inputPath) := by
  cases hcontexts : Batch.ofFile prepared arguments.inputPath with
  | ok contexts =>
    obtain ⟨header, rows, responses, htable, haccepted, hdecided⟩ :=
      decided_runProcess clock hserves hbacked hready.named hnot hcontexts
    exact .decided settings service prepared header rows responses ⟨hready, htable, haccepted⟩ hdecided
  | error e =>
    have hinput : prepared.isDirectory arguments.inputPath ≠ true :=
      fun hdirectory => hnot (.input hdirectory)
    refine .refused (fun settings' service' prepared' header rows haccepted => ?_)
      (refused_runProcess hbacked.grown hinput (.inr ⟨e, hcontexts⟩))
    obtain ⟨-, -, rfl⟩ := hready.unique haccepted.toReady
    obtain ⟨contexts, hread⟩ := Batch.ofFile_of_table haccepted.table haccepted.rows
    simp [hcontexts] at hread

theorem outcome_runProcess {settings : Settings} {log : List Log.Entry}
    (hloaded : (loadSettings arguments disk).1 = .ok settings)
    (hstep : Service.prepare { settings } disk clock.loading = ⟨.ok (), (service, prepared), log⟩)
    (hserves : service.Serves p) (hbacked : Service.Backed settings.ledger disk prepared p) :
    Outcome arguments disk clock (runProcess service prepared clock arguments.inputPath) := by
  by_cases hnamed : arguments.inputPath = []
  · refine outcome_of_not_ready (fun _ _ _ hready => hready.named hnamed) ?_
    simp only [runProcess, hnamed, List.isEmpty_nil, if_true]
    exact ⟨.inr rfl, rfl, hbacked.grown⟩
  · have hready : Ready arguments disk clock settings service prepared :=
      ⟨hloaded, by rw [hstep], by rw [hstep], hnamed⟩
    exact {
      ended := fun hnot => ended_runProcess hready hserves hbacked (mt hready.meetsDirectory_iff.2 hnot)
      aborted := fun hmeets => aborted_runProcess hnamed (hready.meetsDirectory_iff.1 hmeets) }

theorem outcome_runService (hcommand : arguments.command = "process") {settings : Settings}
    (hloaded : (loadSettings arguments disk).1 = .ok settings) (clock : Clock) :
    Outcome arguments disk clock (runService arguments settings disk clock) := by
  have hother : ("process" : Text) ≠ "resolve" ∧ ("process" : Text) ≠ "status" := by decide
  simp only [runService, hcommand, if_true, hother, if_false]
  have hprepared := Service.prepared_prepare settings disk clock.loading
  cases hstep : Service.prepare { settings } disk clock.loading with
  | mk result state log =>
  obtain ⟨service, prepared⟩ := state
  rw [hstep] at hprepared
  cases hprepared with
  | refused e hresult hdisk =>
    obtain rfl : result = .error e := hresult
    refine outcome_of_not_ready (fun settings' service' prepared' hready => ?_) ⟨.inl rfl, ?_, hdisk⟩
    · obtain rfl : settings' = settings := Except.ok.inj (hready.loaded.symm.trans hloaded)
      simpa [hstep] using hready.ready
    · simp [Run.printed, logged, logError, List.filterMap_append]
  | ready p hresult hserves hbacked =>
    obtain rfl : result = .ok () := hresult
    simp only [hserves.processor?_eq]
    exact (outcome_runProcess hloaded hstep hserves hbacked).logged log

theorem outcome_runCommand (hcommand : arguments.command = "process") (disk : Disk) (clock : Clock) :
    Outcome arguments disk clock (runCommand arguments disk clock) := by
  have hother : ("process" : Text) ≠ "verify" ∧ codecCommands.contains ("process" : Text) = false ∧
      serviceCommands.contains ("process" : Text) = true := by decide
  obtain ⟨hverify, hcodec, hservice⟩ := hother
  simp only [runCommand, hcommand, hverify, hcodec, hservice, if_false, if_true, Bool.false_eq_true]
  cases hloaded : loadSettings arguments disk with
  | mk result log =>
    cases result with
    | error e =>
      refine outcome_of_not_ready (fun settings service prepared hready => ?_)
        ⟨.inl rfl, filterMap_logged (fun _ => rfl) log, .refl disk⟩
      simpa [hloaded] using hready.loaded
    | ok settings => exact (outcome_runService hcommand (by rw [hloaded]) clock).logged log

theorem outcome_runDuring {words : List Text} (hwords : Arguments.ofWords words = .ok arguments)
    (hcommand : arguments.command = "process") (disk : Disk) (clock : Clock) :
    Outcome arguments disk clock (runDuring words disk clock) := by
  have hrun := outcome_runCommand hcommand disk clock
  simp only [runDuring, hwords]
  split
  · refine hrun.congr rfl ?_ rfl
    simp [Run.printed, List.filterMap_append]
  · exact hrun

/-! ## Files that are no directories -/

/-- The processor and the files of a service that a command line makes ready. -/
theorem Ready.backed {settings : Settings} (h : Ready arguments disk clock settings service prepared) :
    ∃ p, service.Serves p ∧ Service.Backed settings.ledger disk prepared p := by
  obtain ⟨p, -, hserves, hbacked⟩ : ∃ p, _ ∧ _ ∧ _ := by
    cases Service.prepared_prepare settings disk clock.loading with
    | refused e hresult _ => simp [h.ready] at hresult
    | ready p hresult hserves hbacked => exact ⟨p, hresult, hserves, hbacked⟩
  rw [h.state] at hserves hbacked
  exact ⟨p, hserves, hbacked⟩

/-- A run meets no directory where its input and the files of its ledger are none. -/
theorem not_meetsDirectory_of_isDirectory {settings : Settings}
    (hready : Ready arguments disk clock settings service prepared)
    (hinput : prepared.isDirectory arguments.inputPath = false)
    (hfiles : ∀ opened, prepared.isDirectory
      (Files.Path.join settings.ledger.outputDirectory (Processor.fileNameAt opened)) = false) :
    ¬MeetsDirectory arguments disk clock := by
  rw [hready.meetsDirectory_iff]
  obtain ⟨p, hserves, hbacked⟩ := hready.backed
  rintro (hdirectory | ⟨contexts, -, hmeets⟩)
  · simp [hinput] at hdirectory
  · exact Service.not_meetsDirectory_of_unblocked hserves (hbacked.unblocked hfiles) _ hmeets

/-- An input with a row that is not accepted is read before any directory is met. -/
theorem not_meetsDirectory_of_table {header : List Text} {rows : List (List Text)}
    (htable : Batch.HoldsTable disk arguments.inputPath header rows)
    (hnot : ∃ cells ∈ rows, ¬Batch.IsAccepted header cells) :
    (∀ settings service prepared header' rows',
      ¬Accepted arguments disk clock settings service prepared header' rows') ∧
    ¬MeetsDirectory arguments disk clock := by
  obtain ⟨text, hread, hdecode⟩ := htable
  obtain ⟨cells, hcells, hnot⟩ := hnot
  have hkept : ∀ settings service prepared, Ready arguments disk clock settings service prepared →
      prepared.file? arguments.inputPath = some text := by
    intro settings service prepared hready
    obtain ⟨p, -, hbacked⟩ := hready.backed
    exact hbacked.grown.file?_eq_some hread
  have hrefused : ∀ settings service prepared header' rows',
      Ready arguments disk clock settings service prepared →
      Batch.HoldsTable prepared arguments.inputPath header' rows' →
      ¬∀ cells ∈ rows', Batch.IsAccepted header' cells := by
    intro settings service prepared header' rows' hready htable' haccepted
    obtain ⟨rfl, rfl⟩ := htable'.eq ⟨text, hkept _ _ _ hready, hdecode⟩
    exact hnot (haccepted cells hcells)
  refine ⟨fun _ _ _ _ _ haccepted =>
    hrefused _ _ _ _ _ haccepted.toReady haccepted.table haccepted.rows, ?_⟩
  rintro ⟨settings, service, prepared, hready, hdirectory | ⟨contexts, hcontexts, -⟩⟩
  · have hfile := hkept _ _ _ hready
    rw [(Disk.file?_eq_none_iff_isDirectory (Disk.pathExists_of_isDirectory hdirectory)).2 hdirectory]
      at hfile
    simp at hfile
  · obtain ⟨header', rows', htable', haccepted, -⟩ := Batch.table_of_ofFile hcontexts
    exact hrefused _ _ _ _ _ hready htable' haccepted

/-- A run of the command that meets no directory is refused as a whole or decides every row: in the first case
it exits with 1 or 2, prints no decision and changes no file, and it is refused whenever a row of the input is
too short or too long, or has a cell that its column does not take or under a name that is no column; in the
second case it prints a decision for each row, the files of the ledger go on with the decisions that were
processed, or stay as they are without a ledger, and it exits with 0 unless a decision is on an invalid context
or could not be written. A run that meets a directory, which needs one at the path of the input or in place of
a file of the ledger, is aborted and prints no decision. -/
theorem ended_runDuring {words : List Text} (hwords : Arguments.ofWords words = .ok arguments)
    (hcommand : arguments.command = "process") (disk : Disk) (clock : Clock) :
    (¬MeetsDirectory arguments disk clock → Ended arguments disk clock (runDuring words disk clock)) ∧
      (MeetsDirectory arguments disk clock → Aborted (runDuring words disk clock)) ∧
      (∀ settings service prepared, Ready arguments disk clock settings service prepared →
        prepared.isDirectory arguments.inputPath = false →
        (∀ opened, prepared.isDirectory
          (Files.Path.join settings.ledger.outputDirectory (Processor.fileNameAt opened)) = false) →
        ¬MeetsDirectory arguments disk clock) ∧
      ∀ header rows, Batch.HoldsTable disk arguments.inputPath header rows →
        (∃ cells ∈ rows, ¬Batch.IsAccepted header cells) →
          Refused disk (runDuring words disk clock) := by
  have houtcome := outcome_runDuring hwords hcommand disk clock
  refine ⟨houtcome.ended, houtcome.aborted, fun _ _ _ => not_meetsDirectory_of_isDirectory, ?_⟩
  intro header rows htable hnot
  obtain ⟨hrefused, hmeets⟩ := not_meetsDirectory_of_table htable hnot
  cases houtcome.ended hmeets with
  | refused _ h => exact h
  | decided _ _ _ _ _ _ haccepted _ => exact absurd haccepted (hrefused _ _ _ _ _)

/-- A trade and the same one again are decided, and refused where the second one has no duration. A directory
for an input ends the run. -/
theorem ended_runDuring_twoRows :
    let diskOf (second : Text) : Disk := { working := .file "in.csv" (.ofText
      ("trade_id,symbol,lot_size,duration_minutes\nT1,EURUSD,0.1,10\n" ++ second)) .empty }
    let words : List Text := ["process", "--input=in.csv"]
    let clock : Clock := .constant 1768471200000
    let folder : Disk := { working := .directory "in.csv" .empty .empty }
    let good := runDuring words (diskOf "T1,EURUSD,0.1,10\n") clock
    (good.exit = .success ∧ good.printed.length = 2 ∧
      ∃ settings service prepared header rows responses,
        Decided settings "in.csv" (diskOf "T1,EURUSD,0.1,10\n") clock service prepared header rows good
          responses) ∧
      Refused (diskOf "T1,EURUSD,0.1,\n") (runDuring words (diskOf "T1,EURUSD,0.1,\n") clock) ∧
      Aborted (runDuring words folder clock) := by
  intro diskOf words clock folder good
  have hwords : Arguments.ofWords words = .ok { command := "process", inputPath := "in.csv" } := by
    decide
  have hgood : good.exit = .success ∧ good.printed.length = 2 := by decide +kernel
  refine ⟨⟨hgood.1, hgood.2, ?_⟩, ?_, ?_⟩
  · obtain ⟨hended, haborted, -, -⟩ := ended_runDuring hwords rfl (diskOf "T1,EURUSD,0.1,10\n") clock
    have hmeets : ¬MeetsDirectory { command := "process", inputPath := "in.csv" }
        (diskOf "T1,EURUSD,0.1,10\n") clock := by
      intro hmeets
      have hexit := (haborted hmeets).exit
      rw [show (runDuring words (diskOf "T1,EURUSD,0.1,10\n") clock).exit = .success from hgood.1]
        at hexit
      exact absurd hexit (by decide)
    cases hended hmeets with
    | refused _ h =>
      have hnone := hgood.2
      rw [h.printed] at hnone
      exact absurd hnone (by decide)
    | decided settings service prepared header rows responses _ h =>
      exact ⟨settings.ledger, service, prepared, header, rows, responses, h⟩
  · obtain ⟨-, -, -, hrefused⟩ := ended_runDuring hwords rfl (diskOf "T1,EURUSD,0.1,\n") clock
    refine hrefused ["trade_id", "symbol", "lot_size", "duration_minutes"]
      [["T1", "EURUSD", "0.1", "10"], ["T1", "EURUSD", "0.1", ""]] ?_ ?_
    · exact ⟨_, rfl, by decide +kernel⟩
    · exact ⟨["T1", "EURUSD", "0.1", ""], by simp, by decide +kernel⟩
  · obtain ⟨hended, haborted, -, -⟩ := ended_runDuring hwords rfl folder clock
    have hexit : (runDuring words folder clock).exit = .aborted := by decide +kernel
    refine haborted (by_contra fun hmeets => ?_)
    cases hended hmeets with
    | refused _ h => exact absurd h.exit (by rw [hexit]; decide)
    | decided _ _ _ _ _ _ _ h => exact absurd h.exit (by rw [hexit]; decide)

end TradeReentry.Cli
