import TradeReentry.Proofs.Decision.Answers
import TradeReentry.Proofs.Text.Totals

/-!
# The history that a processor keeps

Every answer is counted once and put before the recent ones (`finishes_answer`). So the counts of a processor are
those of its answers by status, reason and tier, and its recent answers are the last ones that it gave
(`counts_of_hasAnswered`).
-/

namespace TradeReentry.Processor

/-! ## One answer -/

/-- Whether a step counts its answer and keeps it. -/
structure Finishes (p : Processor) (step : Step (Processor × Disk) Response) : Prop where
  tally : step.state.1.tally = p.tally.count step.result
  recent : step.state.1.recent = remember p.settings.recentCapacity p.recent step.result

/-- Whether two processors have the same history and keep as much of it. -/
structure SameHistory (p q : Processor) : Prop where
  tally : q.tally = p.tally
  recent : q.recent = p.recent
  settings : q.settings = p.settings

theorem finishes_finish {p q : Processor} (h : SameHistory p q) (disk : Disk) (r : Response) (log : List Log.Entry) :
    Finishes p (q.finish disk r log) := by
  constructor
  · rw [finish, h.tally]
  · rw [finish, h.recent, h.settings]

theorem sameHistory_record (p : Processor) (disk : Disk) (now : Instant) (r : Response) :
    SameHistory p (p.record disk now r).state.1 := by
  unfold record
  split <;> exact ⟨rfl, rfl, rfl⟩

theorem finishes_conclude {p q : Processor} (h : SameHistory p q) (disk : Disk) (clock : Readings) (r : Response)
    (log : List Log.Entry) : Finishes p (q.conclude disk clock r log) := by
  obtain ⟨htally, hrecent, hsettings⟩ := sameHistory_record q disk clock.writing r
  have hrecord : SameHistory p (q.record disk clock.writing r).state.1 :=
    ⟨htally.trans h.tally, hrecent.trans h.recent, hsettings.trans h.settings⟩
  rw [conclude]
  dsimp only
  split
  · apply finishes_finish
    exact ⟨hrecord.tally, hrecord.recent, hrecord.settings⟩
  · apply finishes_finish
    exact ⟨hrecord.tally, hrecord.recent, hrecord.settings⟩

theorem finishes_decide {p q : Processor} (h : SameHistory p q) (disk : Disk) (clock : Readings) (c : Context)
    (r : Response) : Finishes p (q.decide disk clock c r) := by
  rw [decide]
  dsimp only
  split
  · apply finishes_finish
    exact ⟨h.tally, h.recent, h.settings⟩
  · apply finishes_conclude
    exact ⟨h.tally, h.recent, h.settings⟩

/-- Whichever way a context is answered, the answer is counted once and kept. -/
theorem finishes_answer (p : Processor) (disk : Disk) (clock : Readings) (context : Context) :
    Finishes p (p.answer disk clock context) := by
  rw [answer]
  dsimp only
  split
  · apply finishes_finish
    exact ⟨rfl, rfl, rfl⟩
  · split
    · apply finishes_finish
      exact ⟨rfl, rfl, rfl⟩
    · split
      · apply finishes_finish
        exact ⟨rfl, rfl, rfl⟩
      · apply finishes_decide
        exact ⟨rfl, rfl, rfl⟩

/-! ## What is counted -/

/-- The number of answers that skip a context for a reason. -/
def skippedFor (history : List Response) (reason : Text) : Nat :=
  history.countP fun r => r.status = .skipped ∧ r.reason = reason

/-- Whether a tally counts the answers of a history, and no others. -/
structure Counts (history : List Response) (t : Tally) : Prop where
  processed : t.processed = history.countP (·.status = .processed)
  skipped : t.skipped = history.countP (·.status = .skipped)
  invalidContexts : t.invalidContexts = history.countP (·.status = .invalidContext)
  writeFailures : t.writeFailures = history.countP (·.status = .writeFailure)
  emergencyFallbacks : t.emergencyFallbacks =
    history.countP fun r => r.status = .processed ∧ r.resolvedTier = emergencyTier
  skipReasons : ∀ reason, t.skipReasons.find? reason =
    if skippedFor history reason = 0 then none else some (skippedFor history reason)
  total : t.skipReasons.total = t.skipped

variable {history : List Response} {t : Tally}

theorem counts_nil : Counts [] {} :=
  ⟨rfl, rfl, rfl, rfl, rfl, fun _ => rfl, rfl⟩

/-- Only the reason of a context that is skipped is counted. -/
theorem skipReasons_count (t : Tally) (r : Response) :
    (t.count r).skipReasons =
      if r.status = .skipped then t.skipReasons.modify r.reason 0 (· + 1) else t.skipReasons := by
  rw [Tally.count]
  cases r.status <;> rfl

theorem skippedFor_concat (history : List Response) (r : Response) (reason : Text) :
    skippedFor (history ++ [r]) reason =
      skippedFor history reason + if r.status = .skipped ∧ r.reason = reason then 1 else 0 := by
  simp only [skippedFor, List.countP_append, List.countP_singleton, decide_eq_true_eq]

/-- One answer more is counted by its status, and by its reason or its tier. -/
theorem Counts.concat (h : Counts history t) (r : Response) : Counts (history ++ [r]) (t.count r) := by
  constructor
  case skipReasons =>
    intro reason
    rw [skipReasons_count, skippedFor_concat]
    -- A reason that was not counted before has no entry yet.
    by_cases hreason : r.status = .skipped ∧ r.reason = reason
    · rw [if_pos hreason.1, if_pos hreason, if_neg (Nat.succ_ne_zero _), NameMap.modify, NameMap.find?_insert,
        if_pos hreason.2, hreason.2, h.skipReasons]
      split
      · next hnone => rw [hnone, Option.getD_none]
      · rw [Option.getD_some]
    · rw [if_neg hreason, Nat.add_zero, ← h.skipReasons]
      split
      · next hstatus =>
        rw [NameMap.modify, NameMap.find?_insert, if_neg fun hname => hreason ⟨hstatus, hname⟩]
      · rfl
  case total =>
    rw [skipReasons_count, Tally.count]
    cases r.status with
    | skipped => rw [if_pos rfl, NameMap.total_increment, h.total]
    | processed | invalidContext | writeFailure => exact h.total
  all_goals
    rw [Tally.count, List.countP_append, List.countP_singleton]
    cases r.status <;>
      simp [h.processed, h.skipped, h.invalidContexts, h.writeFailures, h.emergencyFallbacks]

/-- Every answer has one of the four statuses. -/
theorem countP_status (history : List Response) :
    history.countP (·.status = .processed) + history.countP (·.status = .skipped) +
      history.countP (·.status = .invalidContext) + history.countP (·.status = .writeFailure) =
      history.length := by
  induction history with
  | nil => rfl
  | cons r rest ih =>
    simp only [List.countP_cons, List.length_cons]
    cases r.status <;> simp <;> omega

/-! ## Runs -/

/-- What a processor answered so far, the first answer first. Between two answers the disk, the sets, the tracker
and the ledger may change. -/
inductive HasAnswered : List Response → Processor → Prop where
  | start (p : Processor) (htally : p.tally = {}) (hrecent : p.recent = []) : HasAnswered [] p
  | answer {history : List Response} {p : Processor} (h : HasAnswered history p) (disk : Disk) (clock : Readings)
      (context : Context) :
    HasAnswered (history ++ [(p.answer disk clock context).result]) (p.answer disk clock context).state.1
  | changed {history : List Response} {p q : Processor} (h : HasAnswered history p) (hsame : SameHistory p q) :
    HasAnswered history q

theorem hasAnswered_answerAll {p : Processor} (h : HasAnswered history p) (disk : Disk)
    (entries : List (Readings × Context)) :
    HasAnswered (history ++ (p.answerAll disk entries).result) (p.answerAll disk entries).state.1 := by
  induction entries generalizing history p disk with
  | nil =>
    rw [answerAll, List.append_nil]
    exact h
  | cons entry rest ih =>
    obtain ⟨clock, context⟩ := entry
    have hrest := ih (h.answer disk clock context) (p.answer disk clock context).state.2
    rw [List.append_assoc, List.singleton_append] at hrest
    exact hrest

/-- Keeping one answer more of those kept is keeping that many of all. -/
theorem remember_eq {capacity : Int} (hcapacity : 0 ≤ capacity) (answers : List Response) (r : Response) :
    remember capacity (answers.take capacity.toNat) r = (r :: answers).take capacity.toNat := by
  rw [remember, if_neg (Int.not_lt.2 hcapacity)]
  cases capacity.toNat with
  | zero => rfl
  | succ k => rw [List.take_succ_cons, List.take_succ_cons, List.take_take, Nat.min_eq_left (Nat.le_succ k)]

/-- What every answer keeps up: the counts are those of the history, and the recent answers its last ones. -/
theorem kept_of_hasAnswered {p : Processor} (h : HasAnswered history p) (hcapacity : 0 ≤ p.settings.recentCapacity) :
    Counts history p.tally ∧ p.recent = history.reverse.take p.settings.recentCapacity.toNat := by
  induction h with
  | start p htally hrecent =>
    rw [htally, hrecent, List.reverse_nil, List.take_nil]
    exact ⟨counts_nil, rfl⟩
  | @answer history p _ disk clock context ih =>
    -- An answer leaves the settings alone, so that the capacity is that of the whole run.
    have hsettings := (sameSetup_answer p disk clock context).settings
    obtain ⟨htally, hrecent⟩ := finishes_answer p disk clock context
    rw [hsettings] at hcapacity
    obtain ⟨hcounts, hlast⟩ := ih hcapacity
    constructor
    · rw [htally]
      exact hcounts.concat _
    · rw [hrecent, hsettings, hlast, remember_eq hcapacity, List.reverse_concat]
  | @changed history p q _ hsame ih =>
    rw [hsame.settings] at hcapacity
    rw [hsame.tally, hsame.recent, hsame.settings]
    exact ih hcapacity

/-- The statistics of a processor are those of all its answers, and its recent answers are the last ones of them,
the latest first, as many as it keeps or as there are. -/
theorem counts_of_hasAnswered {p : Processor} (h : HasAnswered history p) (hcapacity : 0 ≤ p.settings.recentCapacity)
    (now : Instant) :
    let tally := (p.stats now).tally
    Counts history tally ∧
      tally.processed + tally.skipped + tally.invalidContexts + tally.writeFailures = history.length ∧
      p.recent = history.reverse.take p.settings.recentCapacity.toNat ∧
      p.recent.length = min p.settings.recentCapacity.toNat history.length := by
  obtain ⟨hcounts, hrecent⟩ := kept_of_hasAnswered h hcapacity
  refine ⟨hcounts, ?_, hrecent, ?_⟩
  · rw [stats, hcounts.processed, hcounts.skipped, hcounts.invalidContexts, hcounts.writeFailures]
    exact countP_status history
  · rw [hrecent, List.length_take, List.length_reverse]

/-- A trade without parameter sets, another one too early after it, and one without a symbol; two answers are kept. -/
theorem counts_of_hasAnswered_threeTrades :
    let p : Processor := {
      settings := { recentCapacity := 2 }, vocabulary := .builtin
      resolver := { settings := {}, vocabulary := .builtin }
      tracker := { cooldownMinutes := 15, maxAttemptsPerDay := 5 } }
    let trade : Context := {
      tradeId := "T1", symbol := "EURUSD", lotSize := .ofDecimal 1 1, durationMinutes := .ofNat 10 }
    let entries : List (Readings × Context) := [(.constant 1768471200000, trade),
      (.constant 1768471260000, trade), (.constant 1768471320000, { trade with symbol := [] })]
    let step := p.answerAll {} entries
    step.result.map (·.status) = [.processed, .skipped, .invalidContext] ∧
      step.state.1.tally.processed = 1 ∧ step.state.1.tally.emergencyFallbacks = 1 ∧
      step.state.1.tally.skipReasons.find? Tracker.Refusal.cooldown.reason = some 1 ∧
      step.state.1.recent = step.result.reverse.take 2 := by
  intro p trade entries step
  have hrun : HasAnswered ([] ++ step.result) step.state.1 := hasAnswered_answerAll (.start p rfl rfl) {} entries
  rw [List.nil_append] at hrun
  obtain ⟨hcounts, -, hrecent, -⟩ := counts_of_hasAnswered hrun (by decide +kernel) 0
  have hsettings : step.state.1.settings.recentCapacity.toNat = 2 := by decide +kernel
  rw [hsettings] at hrecent
  refine ⟨by decide +kernel, hcounts.processed.trans (by decide +kernel),
    hcounts.emergencyFallbacks.trans (by decide +kernel), (hcounts.skipReasons _).trans (by decide +kernel), hrecent⟩

end TradeReentry.Processor
