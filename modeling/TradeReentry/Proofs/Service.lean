import TradeReentry.Proofs.Decision.Batches
import TradeReentry.Proofs.Files.Directories
import TradeReentry.Service

/-!
# Services that are ready

Making a service ready makes directories and writes nothing else, and a service that is ready records in a
directory that is there, or not at all (`Service.prepared_prepare`). It answers like the processor behind its
desk (`Service.answerAll_of_serves`), and as a program it answers all contexts or is stopped at the first one whose
file is a directory (`Service.answerToEnd_of_not_meetsDirectory`, `Service.result_answerToEnd_of_meetsDirectory`).
-/

namespace TradeReentry

namespace Service

/-! ## Answering -/

/-- Whether a service answers with a processor. -/
structure Serves (s : Service) (p : Processor) : Prop where
  isReady : s.isReady = true
  desk : ∃ desk, s.desk? = some desk ∧ desk.processor? = some p

variable {s : Service} {p : Processor}

theorem Serves.processor?_eq (h : s.Serves p) : s.processor? = some p := by
  obtain ⟨desk, hdesk, hp⟩ := h.desk
  rw [processor?, hdesk, Option.bind_some, hp]

theorem answer_of_serves (h : s.Serves p) (disk : Disk) (clock : Processor.Readings)
    (context : Context) :
    (s.answer disk clock context).result = (p.answer disk clock context).result ∧
      (s.answer disk clock context).state.2 = (p.answer disk clock context).state.2 ∧
      (s.answer disk clock context).state.1.Serves (p.answer disk clock context).state.1 := by
  obtain ⟨hready, desk, hdesk, hp⟩ := h
  simp only [answer, hdesk, hready, if_true, Desk.answer, hp]
  exact ⟨trivial, trivial, rfl, _, rfl, rfl⟩

/-- A service that is ready gives the answers of its processor. -/
theorem answerAll_of_serves (h : s.Serves p) (disk : Disk)
    (entries : List (Processor.Readings × Context)) :
    (s.answerAll disk entries).result = (p.answerAll disk entries).result ∧
      (s.answerAll disk entries).state.2 = (p.answerAll disk entries).state.2 := by
  induction entries generalizing s p disk with
  | nil => exact ⟨rfl, rfl⟩
  | cons entry rest ih =>
    obtain ⟨hresult, hdisk, hnext⟩ := answer_of_serves h disk entry.1 entry.2
    obtain ⟨hresults, hdisks⟩ := ih hnext (s.answer disk entry.1 entry.2).state.2
    simp only [answerAll, Processor.answerAll]
    rw [hresult, hresults, hdisks, hdisk]
    exact ⟨rfl, rfl⟩

/-! ## Answering until a directory is met -/

/-- Whether the answer to one of the contexts, after those before it, meets a directory in place of a file of
the ledger. -/
def MeetsDirectory (s : Service) (disk : Disk) (entries : List (Processor.Readings × Context)) : Prop :=
  ∃ before clock context after, entries = before ++ (clock, context) :: after ∧
    ((s.answerAll disk before).state.1.abortLog? (s.answerAll disk before).state.2 clock context).isSome

theorem not_meetsDirectory_nil (s : Service) (disk : Disk) : ¬s.MeetsDirectory disk [] := by
  rintro ⟨before, clock, context, after, heq, -⟩
  simp at heq

theorem meetsDirectory_cons (s : Service) (disk : Disk) (clock : Processor.Readings) (context : Context)
    (rest : List (Processor.Readings × Context)) :
    s.MeetsDirectory disk ((clock, context) :: rest) ↔ (s.abortLog? disk clock context).isSome ∨
      (s.answer disk clock context).state.1.MeetsDirectory (s.answer disk clock context).state.2 rest := by
  constructor
  · rintro ⟨_ | ⟨first, before⟩, clock', context', after, heq, haborts⟩
    · obtain ⟨⟨rfl, rfl⟩, rfl⟩ := by simpa using heq
      exact .inl haborts
    · obtain ⟨rfl, rfl⟩ := by simpa using heq
      exact .inr ⟨before, clock', context', after, rfl, haborts⟩
  · rintro (haborts | ⟨before, clock', context', after, rfl, haborts⟩)
    · exact ⟨[], clock, context, rest, rfl, haborts⟩
    · exact ⟨(clock, context) :: before, clock', context', after, rfl, haborts⟩

/-- Contexts whose answers meet no directory are all answered. -/
theorem answerToEnd_of_not_meetsDirectory {entries : List (Processor.Readings × Context)}
    (h : ¬s.MeetsDirectory disk entries) :
    s.answerToEnd disk entries = { result := some (s.answerAll disk entries).result
                                   state := (s.answerAll disk entries).state
                                   log := (s.answerAll disk entries).log } := by
  induction entries generalizing s disk with
  | nil => rfl
  | cons entry rest ih =>
    obtain ⟨clock, context⟩ := entry
    rw [meetsDirectory_cons, not_or, Option.not_isSome_iff_eq_none] at h
    obtain ⟨hgoes, hrest⟩ := h
    simp only [answerToEnd, answerAll, hgoes, ih hrest, Option.map_some]

/-- Where one of the answers meets a directory, there are no answers. -/
theorem result_answerToEnd_of_meetsDirectory {entries : List (Processor.Readings × Context)}
    (h : s.MeetsDirectory disk entries) : (s.answerToEnd disk entries).result = none := by
  induction entries generalizing s disk with
  | nil => exact absurd h (not_meetsDirectory_nil s disk)
  | cons entry rest ih =>
    obtain ⟨clock, context⟩ := entry
    cases hlog : s.abortLog? disk clock context with
    | some log => simp [answerToEnd, hlog]
    | none =>
      have hrest := ((meetsDirectory_cons ..).1 h).resolve_left (by simp [hlog])
      simp [answerToEnd, hlog, ih hrest]

theorem abortLog?_of_serves (h : s.Serves p) (disk : Disk) (clock : Processor.Readings)
    (context : Context) : s.abortLog? disk clock context = p.abortLog? disk clock context := by
  rw [abortLog?, if_pos h.isReady, h.processor?_eq, Option.bind_some]

/-- No directory is met where the files of decisions are none. -/
theorem not_meetsDirectory_of_unblocked {directory : Text} (hserves : s.Serves p)
    (h : p.Unblocked directory disk) (entries : List (Processor.Readings × Context)) :
    ¬s.MeetsDirectory disk entries := by
  induction entries generalizing s p disk with
  | nil => exact not_meetsDirectory_nil s disk
  | cons entry rest ih =>
    obtain ⟨clock, context⟩ := entry
    obtain ⟨-, hdisk, hnext⟩ := answer_of_serves hserves disk clock context
    rw [meetsDirectory_cons, abortLog?_of_serves hserves, Processor.abortLog?_of_unblocked h]
    simp only [Option.isSome_none, Bool.false_eq_true, false_or]
    exact ih hnext (hdisk ▸ Processor.unblocked_answer h clock context)

/-- Answers that meet no directory tell the errors of the rows that they could not write, and none of them is
that a file cannot be read. -/
theorem writeError_of_answerAll {entries : List (Processor.Readings × Context)} (hserves : s.Serves p)
    (h : ¬s.MeetsDirectory disk entries) :
    ∀ r ∈ (s.answerAll disk entries).result, r.status = .writeFailure →
      ∃ e : Ledger.WriteError, (∀ path, e ≠ .unreadable path) ∧
        r.reason = "write_failure: " ++ e.message := by
  induction entries generalizing s p disk with
  | nil => simp [answerAll]
  | cons entry rest ih =>
    obtain ⟨clock, context⟩ := entry
    obtain ⟨hresult, -, hnext⟩ := answer_of_serves hserves disk clock context
    rw [meetsDirectory_cons, not_or, Option.not_isSome_iff_eq_none, abortLog?_of_serves hserves] at h
    obtain ⟨hgoes, hrest⟩ := h
    simp only [answerAll, List.forall_mem_cons]
    refine ⟨fun hstatus => ?_, ih hnext hrest⟩
    rw [hresult] at hstatus ⊢
    exact Processor.writeError_of_answer hgoes hstatus

/-! ## Making ready -/

/-- How a processor stands to the files once it is ready: it records in a directory that is there, or it
records nothing. -/
inductive Backed (settings : LedgerSettings) (disk disk' : Disk) (p : Processor) : Prop where
  | recording (henabled : settings.enabled = true) (hdisk : Disk.Grown disk disk')
      (hdirectory : disk'.isDirectory settings.outputDirectory = true)
      (hledger : p.RecordsIn settings.outputDirectory)
  | idle (henabled : settings.enabled = false) (hdisk : disk' = disk) (hledger : p.ledger? = none)

/-- Where no file of the ledger is a directory, none is met. -/
theorem Backed.unblocked {settings : LedgerSettings} {disk disk' : Disk}
    (h : Backed settings disk disk' p)
    (hfiles : ∀ opened, disk'.isDirectory
      (Files.Path.join settings.outputDirectory (Processor.fileNameAt opened)) = false) :
    p.Unblocked settings.outputDirectory disk' := by
  cases h with
  | recording _ _ hdirectory hledger => exact .recording hledger hdirectory hfiles
  | idle _ _ hledger => exact .idle hledger

theorem Backed.grown {settings : LedgerSettings} {disk disk' : Disk}
    (h : Backed settings disk disk' p) : Disk.Grown disk disk' := by
  cases h with
  | recording _ hdisk _ _ => exact hdisk
  | idle _ hdisk _ => exact hdisk ▸ .refl disk

/-- How making a service ready ends. -/
inductive Prepared (settings : Settings) (disk : Disk)
    (step : Step (Service × Disk) (Except ReadyError Unit)) : Prop where
  | refused (e : ReadyError) (hresult : step.result = .error e) (hdisk : Disk.Grown disk step.state.2)
  | ready (p : Processor) (hresult : step.result = .ok ()) (hserves : step.state.1.Serves p)
      (hbacked : Backed settings.ledger disk step.state.2 p)

/-- Preparing a ledger makes its directory. -/
theorem prepare_ledger_spec (ledger : Ledger) (disk : Disk) :
    Disk.Grown disk (ledger.prepare disk).state ∧ ((ledger.prepare disk).result = .ok () →
      (ledger.prepare disk).state.isDirectory ledger.settings.outputDirectory = true) := by
  have hgrown := Disk.grown_makeDirectories disk ledger.settings.outputDirectory
  rw [Ledger.prepare]
  split
  · next disk' cause hmake =>
    rw [hmake] at hgrown
    exact ⟨hgrown, by simp⟩
  · next disk' hmake =>
    rw [hmake] at hgrown
    exact ⟨hgrown, fun _ => Disk.isDirectory_of_makeDirectories hmake⟩

/-- What making the components ready does to the files, and the processor that it leads to. -/
theorem prepareDesk_spec (settings : Settings) (v : Vocabulary) (disk : Disk) (now : Instant) :
    Disk.Grown disk (prepareDesk (build settings v) disk now).state.2 ∧
      ((prepareDesk (build settings v) disk now).result = .ok () →
        ∃ p, (prepareDesk (build settings v) disk now).state.1.processor? = some p ∧
          Backed settings.ledger disk (prepareDesk (build settings v) disk now).state.2 p) := by
  unfold prepareDesk
  simp only [build, Desk.ofSettings]
  cases henabled : settings.ledger.enabled with
  | false =>
    simp only [Bool.false_eq_true, if_false]
    split
    · exact ⟨.refl disk, by simp⟩
    · exact ⟨.refl disk, fun _ => ⟨_, rfl, .idle henabled rfl rfl⟩⟩
    · next heq => simp at heq
  | true =>
    simp only [if_true]
    split
    · exact ⟨.refl disk, by simp⟩
    · next heq => simp at heq
    · next ledger _ heq =>
      obtain rfl := Option.some.inj heq
      obtain ⟨hgrown, hmade⟩ := prepare_ledger_spec
        { settings := settings.ledger, schema := .reentryDecisions } disk
      split
      · exact ⟨hgrown, by simp⟩
      · next hprepared =>
        exact ⟨hgrown, fun _ => ⟨_, rfl, .recording henabled hgrown (hmade hprepared)
          ⟨_, rfl, rfl, rfl, .inl rfl⟩⟩⟩

theorem prepared_prepare (settings : Settings) (disk : Disk) (now : Instant) :
    Prepared settings disk (prepare { settings } disk now) := by
  unfold prepare
  simp only [Bool.false_eq_true, if_false]
  split
  · exact .refused _ rfl (.refl disk)
  split
  · exact .refused _ rfl (.refl disk)
  next vocabulary log _ =>
  obtain ⟨hgrown, hready⟩ := prepareDesk_spec settings vocabulary disk now
  split
  · exact .refused _ rfl hgrown
  · next hresult =>
    obtain ⟨p, hp, hbacked⟩ := hready hresult
    exact .ready p rfl ⟨rfl, _, rfl, hp⟩ hbacked

end Service

end TradeReentry
