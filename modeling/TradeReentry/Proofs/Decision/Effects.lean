import TradeReentry.Proofs.Admission.Agreement
import TradeReentry.Proofs.Decision.Answers
import TradeReentry.Proofs.Ledger.Audits

/-!
# Decisions that take full effect or none

A processed context is one row more in the ledger and one commit more in the tracker; any other answer
leaves the files and the numbers as they are, and a tracker that answers all later requests as if it had
not been asked (`effect_of_reached`).
-/

namespace TradeReentry

namespace Ledger

open Files

variable {disk disk' : Disk}

/-- What a row does to a directory: one more line with its cells in the file of a name, and one more
record where that file held records. -/
structure RowAdded (schema : Schema) (directory name : Text) (cells : List Text) (disk disk' : Disk) :
    Prop extends LineAdded schema directory name (lineOf cells) disk disk' where
  records : ∀ records, (disk.file? (Path.join directory name) = none → records = [schema.header]) →
    (∀ t, disk.file? (Path.join directory name) = some t → Csv.Lines t records) →
    ∃ t', disk'.file? (Path.join directory name) = some t' ∧ Csv.Lines t' (records ++ [cells])

theorem LineAdded.rowAdded {schema : Schema} {directory name : Text} {cells : List Text}
    (h : LineAdded schema directory name (lineOf cells) disk disk')
    (hmany : 2 ≤ schema.header.length) (hlength : cells.length = schema.header.length) :
    RowAdded schema directory name cells disk disk' :=
  ⟨h, fun _ hnone hsome => ⟨_, h.file, lines_continued hmany hlength ⟨hnone, hsome⟩⟩⟩

end Ledger

theorem ReentryAction.countsAsAttempt_eq (action : ReentryAction) :
    action.countsAsAttempt = decide (action = .r1 ∨ action = .r2) := by
  cases action <;> rfl

namespace Processor

open Files

/-- What the clock says, in order. -/
def Readings.toList (clock : Readings) : List Instant :=
  [clock.admission, clock.writing, clock.settlement]

/-- The processors that record decisions and answer one context after the other, and what the clock
said on the way. Others may change the disk between two answers, and put other parameter sets in
place. -/
inductive Reached : List Instant → Processor → Prop where
  | start (settings : ProcessorSettings) (vocabulary : Vocabulary) (resolver : Resolver)
      (cooldownMinutes maxAttemptsPerDay : Int) (ledger : LedgerSettings) :
    Reached [] {
      settings, vocabulary, resolver
      tracker := { cooldownMinutes, maxAttemptsPerDay }
      ledger? := some { settings := ledger, schema := .reentryDecisions } }
  | answer {readings : List Instant} {p : Processor} (h : Reached readings p) (disk : Disk)
      (clock : Readings) (context : Context) :
    Reached (readings ++ clock.toList) (p.answer disk clock context).state.1
  | retuned {readings : List Instant} {p : Processor} (h : Reached readings p) (resolver : Resolver) :
    Reached readings { p with resolver }

/-- What holds of a processor between two answers. -/
structure Settled (readings : List Instant) (p : Processor) : Prop where
  landed : ∀ symbol, (p.tracker.state symbol).inFlight = false
  days : ∀ symbol d, (p.tracker.state symbol).day? = some d →
    ∃ reading ∈ readings, reading.dayIndex = d
  ledger : ∀ ledger, p.ledger? = some ledger → ledger.schema = .reentryDecisions ∧ ledger.InUse

variable {readings : List Instant} {p : Processor} {disk : Disk} {clock : Readings}
  {context : Context}

theorem plain_reentryDecisions : Ledger.FileName.IsPlain Schema.reentryDecisions.recordType :=
  Ledger.FileName.isPlain_of_mem_builtin List.mem_cons_self

namespace Settled

theorem ledger_append (h : Settled readings p) {ledger : Ledger} (hledger : p.ledger? = some ledger)
    (disk : Disk) (now : Instant) (row : Row) :
    (ledger.append disk now row).state.1.schema = .reentryDecisions ∧
      (ledger.append disk now row).state.1.InUse := by
  obtain ⟨hschema, huse⟩ := h.ledger ledger hledger
  obtain ⟨hschema', -, huse'⟩ :=
    Ledger.inUse_append huse disk now row
  exact ⟨hschema'.trans hschema, huse'⟩

/-- An admission that has ended leaves no symbol in flight. -/
theorem landed_settle (h : Settled readings p) (symbol : Text) (admission settlement : Instant)
    (how : Tracker.Settlement) (other : Text) :
    (((p.tracker.acquire symbol admission).2.settle symbol settlement how).state other).inFlight =
      false := by
  rw [Tracker.inFlight_settle]
  split
  · rfl
  · next hne =>
    rw [Bool.eq_false_iff, ne_eq, Tracker.inFlight_acquire, h.landed]
    simp [hne]

/-- The days of a tracker are among those of the clock. -/
theorem days_settle (h : Settled readings p) (clock : Readings) (symbol : Text)
    (how : Tracker.Settlement) :
    ∀ other d, (((p.tracker.acquire symbol clock.admission).2.settle symbol clock.settlement how).state
      other).day? = some d → ∃ reading ∈ readings ++ clock.toList, reading.dayIndex = d := by
  refine Tracker.day_settle (Tracker.day_acquire ?_ ?_ symbol) ?_ symbol how
  · intro other d hday
    obtain ⟨reading, hmem, hreading⟩ := h.days other d hday
    exact ⟨reading, List.mem_append_left _ hmem, hreading⟩
  · exact ⟨clock.admission, by simp [Readings.toList], rfl⟩
  · exact ⟨clock.settlement, by simp [Readings.toList], rfl⟩

/-- A processor is settled after an admission that has ended. -/
theorem after_settle (h : Settled readings p) (clock : Readings) {q : Processor} {symbol : Text}
    {how : Tracker.Settlement}
    (htracker : q.tracker =
      (p.tracker.acquire symbol clock.admission).2.settle symbol clock.settlement how)
    (hledger : ∀ ledger, q.ledger? = some ledger → ledger.schema = .reentryDecisions ∧ ledger.InUse) :
    Settled (readings ++ clock.toList) q := by
  refine ⟨?_, ?_, hledger⟩
  · intro other
    rw [htracker]
    exact h.landed_settle ..
  · rw [htracker]
    exact h.days_settle clock _ _

/-- Every answer leaves the processor settled. -/
theorem answer (h : Settled readings p) (disk : Disk) (clock : Readings) (context : Context) :
    Settled (readings ++ clock.toList) (p.answer disk clock context).state.1 := by
  have hdays : ∀ other d, (p.tracker.state other).day? = some d →
      ∃ reading ∈ readings ++ clock.toList, reading.dayIndex = d := by
    intro other d hday
    obtain ⟨reading, hmem, hreading⟩ := h.days other d hday
    exact ⟨reading, List.mem_append_left _ hmem, hreading⟩
  cases effect_answer p disk clock context with
  | unasked _ htracker hledger _ =>
    exact ⟨by rw [htracker]; exact h.landed, by rw [htracker]; exact hdays,
      by rw [hledger]; exact h.ledger⟩
  | refused symbol refusal hacquire _ htracker hledger _ =>
    refine ⟨?_, ?_, by rw [hledger]; exact h.ledger⟩
    · intro other
      rw [htracker, Tracker.inFlight_of_refused hacquire, h.landed]
    · rw [htracker]
      exact Tracker.day_acquire hdays ⟨clock.admission, by simp [Readings.toList], rfl⟩ symbol
  | unidentified symbol _ _ htracker hledger _ =>
    exact h.after_settle clock htracker (by rw [hledger]; exact h.ledger)
  | unwritten decided ledger e _ _ hpresent _ _ htracker hledger _ =>
    apply h.after_settle clock htracker
    intro after hafter
    rw [hledger, Option.some.injEq] at hafter
    exact hafter ▸ h.ledger_append hpresent ..
  | recorded decided ledger receipt _ _ hpresent _ _ htracker hledger _ =>
    apply h.after_settle clock htracker
    intro after hafter
    rw [hledger, Option.some.injEq] at hafter
    exact hafter ▸ h.ledger_append hpresent ..
  | unrecorded decided _ _ _ _ htracker hledger _ =>
    exact h.after_settle clock htracker (by rw [hledger]; simp)

end Settled

theorem settled_of_reached (h : Reached readings p) : Settled readings p := by
  induction h with
  | start settings vocabulary resolver cooldownMinutes maxAttemptsPerDay ledger =>
    refine ⟨fun _ => rfl, ?_, ?_⟩
    · intro symbol d hday
      simp [Tracker.state] at hday
    · intro ledger hledger
      obtain rfl := Option.some.inj hledger
      exact ⟨rfl, .inl rfl⟩
  | answer _ disk clock context ih => exact ih.answer disk clock context
  | retuned _ resolver ih => exact ⟨ih.landed, ih.days, ih.ledger⟩

/-! ## Full effect or none -/

/-- What an answer does that takes full effect: a row for the response in the file in use, and a commit
of its symbol. -/
structure FullEffect (p : Processor) (ledger : Ledger) (disk : Disk) (clock : Readings)
    (context : Context) (step : Step (Processor × Disk) Response) : Prop where
  symbol : step.result.symbol = context.symbol
  row : ∃ after opened, step.state.1.ledger? = some after ∧
    after.currentFile = ledger.pathAt opened ∧
    Ledger.RowAdded .reentryDecisions ledger.settings.outputDirectory
      (Ledger.FileName.ofInstant Schema.reentryDecisions.recordType opened)
      (Ledger.Receipt.cells .reentryDecisions {
        sequence := step.result.sequence, checksum := step.result.checksum
        path := after.currentFile, timestamp := clock.writing.isoText } step.result.toRow)
      disk step.state.2
  admitted : (p.tracker.acquire step.result.symbol clock.admission).1 = .ok ()
  tracker : step.state.1.tracker =
    (p.tracker.acquire step.result.symbol clock.admission).2.settle step.result.symbol
      clock.settlement (.commit (step.result.action = .r1 ∨ step.result.action = .r2))
  commits : step.state.1.tracker.stats.commits = p.tracker.stats.commits + 1

/-- What an answer leaves alone that takes no effect: the files, the numbers, the commits, and whatever
a clock that does not go back lets the tracker answer later. -/
structure NoEffect (readings : List Instant) (p : Processor) (ledger : Ledger) (disk : Disk)
    (clock : Readings) (step : Step (Processor × Disk) Response) : Prop where
  disk : step.state.2 = disk
  numbers : ∃ after, step.state.1.ledger? = some after ∧ after.lastSequence = ledger.lastSequence
  commits : step.state.1.tracker.stats.commits = p.tracker.stats.commits
  landed : ∀ symbol, (step.state.1.tracker.state symbol).inFlight = false
  answers : ∀ requests : List Tracker.Request,
    (readings ++ clock.toList ++ requests.map (·.instant)).Pairwise (· ≤ ·) →
      step.state.1.tracker.answers requests = p.tracker.answers requests

namespace Settled

/-- The days of a symbol are over when a later admission begins. -/
theorem days_le (h : Settled readings p) {requests : List Tracker.Request}
    (hclock : (readings ++ clock.toList ++ requests.map (·.instant)).Pairwise (· ≤ ·))
    (symbol : Text) :
    ∀ d, (p.tracker.state symbol).day? = some d → d ≤ clock.admission.dayIndex := by
  intro d hday
  obtain ⟨reading, hmem, rfl⟩ := h.days symbol d hday
  rw [List.append_assoc, List.pairwise_append] at hclock
  exact Tracker.dayIndex_mono (hclock.2.2 reading hmem clock.admission (by simp [Readings.toList]))

/-- A tracker that agrees with the one before from the admission on answers all later requests like
it. -/
theorem answers_of_agree {t : Tracker} (hagree : t.Agree clock.admission.dayIndex p.tracker)
    {requests : List Tracker.Request}
    (hclock : (readings ++ clock.toList ++ requests.map (·.instant)).Pairwise (· ≤ ·)) :
    t.answers requests = p.tracker.answers requests := by
  obtain ⟨-, hlater, hcross⟩ := List.pairwise_append.1 hclock
  refine hagree.answers_eq (fun r hr => Tracker.dayIndex_mono ?_) hlater
  exact hcross clock.admission (by simp [Readings.toList]) _ (List.mem_map_of_mem hr)

/-- An admission that was released had no effect. -/
theorem noEffect_of_released (h : Settled readings p) {ledger : Ledger} {symbol : Text}
    {step : Step (Processor × Disk) Response}
    (hacquire : (p.tracker.acquire symbol clock.admission).1 = .ok ())
    (htracker : step.state.1.tracker =
      (p.tracker.acquire symbol clock.admission).2.settle symbol clock.settlement .release)
    (hdisk : step.state.2 = disk)
    (hnumbers : ∃ after, step.state.1.ledger? = some after ∧
      after.lastSequence = ledger.lastSequence) :
    NoEffect readings p ledger disk clock step := by
  refine ⟨hdisk, hnumbers, ?_, ?_, ?_⟩
  · rw [htracker, Tracker.commits_release, Tracker.commits_acquire]
  · intro other
    rw [htracker]
    exact h.landed_settle ..
  · intro requests hclock
    rw [htracker]
    have hagree := Tracker.agree_of_released (h.days_le hclock symbol) (h.landed symbol) hacquire
      clock.settlement
    exact answers_of_agree hagree.symm hclock

/-- An answer that is not processed has no effect. -/
theorem noEffect_answer (h : Settled readings p) {ledger : Ledger}
    (hledger : p.ledger? = some ledger) (disk : Disk) (clock : Readings) (context : Context)
    (hother : (p.answer disk clock context).result.status ≠ .processed) :
    NoEffect readings p ledger disk clock (p.answer disk clock context) := by
  have hafter := h.answer disk clock context
  cases effect_answer p disk clock context with
  | unasked _ htracker hsame hdisk =>
    exact ⟨hdisk, ⟨ledger, hsame.trans hledger, rfl⟩, by rw [htracker], hafter.landed,
      fun _ _ => by rw [htracker]⟩
  | refused symbol refusal hacquire _ htracker hsame hdisk =>
    refine ⟨hdisk, ⟨ledger, hsame.trans hledger, rfl⟩, by simp [htracker], hafter.landed, ?_⟩
    intro requests hclock
    rw [htracker]
    have hagree := Tracker.agree_of_refused (h.days_le hclock symbol) hacquire
    exact answers_of_agree hagree.symm hclock
  | unidentified symbol hacquire _ htracker hsame hdisk =>
    exact h.noEffect_of_released hacquire htracker hdisk ⟨ledger, hsame.trans hledger, rfl⟩
  | unwritten decided present e _ hacquire hpresent happend _ htracker hsame hdisk =>
    obtain rfl : ledger = present := Option.some.inj (hledger.symm.trans hpresent)
    obtain ⟨hdisk', hnumbers⟩ := Ledger.append_error happend
    exact h.noEffect_of_released hacquire htracker (hdisk.trans hdisk') ⟨_, hsame, hnumbers⟩
  | recorded _ _ _ _ _ _ _ hresult _ _ _ => exact absurd (by rw [hresult]) hother
  | unrecorded _ _ _ hmissing _ _ _ _ => simp [hmissing] at hledger

/-- An answer that is processed has its full effect. -/
theorem fullEffect_answer (h : Settled readings p) {ledger : Ledger}
    (hledger : p.ledger? = some ledger) (disk : Disk) (clock : Readings) (context : Context)
    (hdirectory : disk.isDirectory ledger.settings.outputDirectory = true)
    (hprocessed : (p.answer disk clock context).result.status = .processed) :
    FullEffect p ledger disk clock context (p.answer disk clock context) := by
  cases effect_answer p disk clock context with
  | unasked hother _ _ _ => exact absurd hprocessed hother
  | refused _ _ _ hother _ _ _ => exact absurd hprocessed hother
  | unidentified _ _ hother _ _ _ => exact absurd hprocessed hother
  | unwritten _ _ _ _ _ _ _ hother _ _ _ => exact absurd hprocessed hother
  | recorded decided present receipt hdecided hacquire hpresent happend hresult htracker hsame
      hdisk =>
    obtain rfl : ledger = present := Option.some.inj (hledger.symm.trans hpresent)
    obtain ⟨hschema, huse⟩ := h.ledger ledger hledger
    obtain ⟨hpath, htime, opened, hopened, hadded⟩ :=
      Ledger.append_ok (hschema ▸ plain_reentryDecisions) huse hdirectory happend
    rw [hschema] at hadded
    refine ⟨?_, ⟨_, opened, hsame, hpath ▸ hopened, ?_⟩, by rw [hresult]; exact hacquire, ?_, ?_⟩
    · rw [hresult]
      exact hdecided.symbol_eq
    · rw [hresult, hdisk, ← hpath, ← htime]
      exact hadded.rowAdded (by decide) (by simp [Ledger.Receipt.cells])
    · rw [htracker, hresult, ReentryAction.countsAsAttempt_eq]
    · rw [htracker, Tracker.commits_commit, Tracker.commits_acquire]
  | unrecorded _ _ _ hmissing _ _ _ _ => simp [hmissing] at hledger

end Settled

/-- An answer of a processor that records takes full effect if it is processed and none otherwise:
either a row is added and the symbol is committed, or the files and numbers stay and the tracker cannot
be told from one that was not asked. -/
theorem effect_of_reached (h : Reached readings p) {ledger : Ledger}
    (hledger : p.ledger? = some ledger) (disk : Disk) (clock : Readings) (context : Context) :
    (disk.isDirectory ledger.settings.outputDirectory = true →
      (p.answer disk clock context).result.status = .processed →
        FullEffect p ledger disk clock context (p.answer disk clock context)) ∧
    ((p.answer disk clock context).result.status ≠ .processed →
      NoEffect readings p ledger disk clock (p.answer disk clock context)) := by
  have hsettled := settled_of_reached h
  constructor
  · intro hdirectory hprocessed
    exact hsettled.fullEffect_answer hledger disk clock context hdirectory hprocessed
  · intro hother
    exact hsettled.noEffect_answer hledger disk clock context hother

/-- The same trade twice within the cooldown: the first answer records it, the second one has no
effect. -/
theorem effect_of_reached_twice :
    let ledger : Ledger := { settings := { outputDirectory := "d" }, schema := .reentryDecisions }
    let p : Processor := {
      settings := {}, vocabulary := .builtin
      resolver := { settings := {}, vocabulary := .builtin }
      tracker := { cooldownMinutes := 15, maxAttemptsPerDay := 5 }, ledger? := some ledger }
    let disk : Disk := { working := .directory "d" .empty .empty }
    let context : Context := {
      tradeId := "T1", symbol := "EURUSD", lotSize := .ofDecimal 1 1, durationMinutes := .ofNat 10 }
    let clock : Readings := .constant 1768471200000
    let later : Readings := .constant 1768471260000
    let first := p.answer disk clock context
    let second := first.state.1.answer first.state.2 later context
    FullEffect p ledger disk clock context first ∧ ∃ after, first.state.1.ledger? = some after ∧
      NoEffect clock.toList first.state.1 after first.state.2 later second := by
  intro ledger p disk context clock later first second
  have hstart : Reached [] p := .start _ _ _ _ _ _
  have hfirst : first.result.status = .processed := by decide +kernel
  have hsecond : second.result.status = .skipped := by decide +kernel
  have hafter : first.state.1.ledger?.isSome = true := by decide +kernel
  obtain ⟨after, hafter⟩ := Option.isSome_iff_exists.1 hafter
  have hnext : Reached clock.toList first.state.1 := hstart.answer disk clock context
  exact ⟨(effect_of_reached hstart rfl disk clock context).1 rfl hfirst, after, hafter,
    (effect_of_reached hnext hafter first.state.2 later context).2 (by simp [second, hsecond])⟩

end Processor

end TradeReentry
