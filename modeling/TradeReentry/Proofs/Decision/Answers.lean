import TradeReentry.Decision.Processor
import TradeReentry.Proofs.Ledger.Steps
import TradeReentry.Proofs.Parameters.Resolving

/-!
# What an answer does

`Processor.Effect` lists the ways in which an answer can end, with what each of them does to the
tracker, the ledger and the disk, and `effect_answer` goes through the branches of a decision for whoever
asks for these. An answer that cannot write its row tells why, and the reason is never a directory in place
of the file, which it does not survive (`writeError_of_answer`).
-/

namespace TradeReentry

namespace Processor

/-- Whether a response is what the processor decides on a context. -/
def Decided (p : Processor) (context : Context) (decided : Response) : Prop :=
  ∃ c r, context.normalise p.vocabulary = .ok c ∧ gate? p.settings c = none ∧
    p.identified c = .ok r ∧ decided = p.decision c r

/-- How an answer ends. -/
inductive Effect (p : Processor) (disk : Disk) (clock : Readings) (context : Context)
    (step : Step (Processor × Disk) Response) : Prop where
  /-- The symbol is not asked for. -/
  | unasked (hstatus : step.result.status ≠ .processed)
      (htracker : step.state.1.tracker = p.tracker) (hledger : step.state.1.ledger? = p.ledger?)
      (hdisk : step.state.2 = disk)
  /-- The symbol is refused. -/
  | refused (symbol : Text) (refusal : Tracker.Refusal)
      (hacquire : (p.tracker.acquire symbol clock.admission).1 = .error refusal)
      (hstatus : step.result.status ≠ .processed)
      (htracker : step.state.1.tracker = (p.tracker.acquire symbol clock.admission).2)
      (hledger : step.state.1.ledger? = p.ledger?) (hdisk : step.state.2 = disk)
  /-- The context cannot be identified. -/
  | unidentified (symbol : Text)
      (hacquire : (p.tracker.acquire symbol clock.admission).1 = .ok ())
      (hstatus : step.result.status ≠ .processed)
      (htracker : step.state.1.tracker =
        (p.tracker.acquire symbol clock.admission).2.settle symbol clock.settlement .release)
      (hledger : step.state.1.ledger? = p.ledger?) (hdisk : step.state.2 = disk)
  /-- The row of the decision is not written. -/
  | unwritten (decided : Response) (ledger : Ledger) (e : Ledger.WriteError)
      (hdecided : Decided p context decided)
      (hacquire : (p.tracker.acquire decided.symbol clock.admission).1 = .ok ())
      (hpresent : p.ledger? = some ledger)
      (happend : (ledger.append disk clock.writing decided.toRow).result = .error e)
      (hstatus : step.result.status ≠ .processed)
      (htracker : step.state.1.tracker =
        (p.tracker.acquire decided.symbol clock.admission).2.settle decided.symbol clock.settlement
          .release)
      (hledger : step.state.1.ledger? = some (ledger.append disk clock.writing decided.toRow).state.1)
      (hdisk : step.state.2 = (ledger.append disk clock.writing decided.toRow).state.2)
  /-- The decision is recorded. -/
  | recorded (decided : Response) (ledger : Ledger) (receipt : Ledger.Receipt)
      (hdecided : Decided p context decided)
      (hacquire : (p.tracker.acquire decided.symbol clock.admission).1 = .ok ())
      (hpresent : p.ledger? = some ledger)
      (happend : (ledger.append disk clock.writing decided.toRow).result = .ok receipt)
      (hresult : step.result = { decided with
        sequence := receipt.sequence, checksum := receipt.checksum, status := .processed })
      (htracker : step.state.1.tracker =
        (p.tracker.acquire decided.symbol clock.admission).2.settle decided.symbol clock.settlement
          (.commit decided.action.countsAsAttempt))
      (hledger : step.state.1.ledger? = some (ledger.append disk clock.writing decided.toRow).state.1)
      (hdisk : step.state.2 = (ledger.append disk clock.writing decided.toRow).state.2)
  /-- The decision stands, and there is no ledger to record it. -/
  | unrecorded (decided : Response) (hdecided : Decided p context decided)
      (hacquire : (p.tracker.acquire decided.symbol clock.admission).1 = .ok ())
      (hmissing : p.ledger? = none)
      (hresult : step.result = { decided with reason := ledgerDisabledReason, status := .processed })
      (htracker : step.state.1.tracker =
        (p.tracker.acquire decided.symbol clock.admission).2.settle decided.symbol clock.settlement
          (.commit decided.action.countsAsAttempt))
      (hledger : step.state.1.ledger? = none) (hdisk : step.state.2 = disk)

variable {p : Processor} {disk : Disk} {clock : Readings} {context : Context}

/-- Normalising keeps the names of the trade. -/
theorem names_of_normalise {v : Vocabulary} {c : Context} (h : context.normalise v = .ok c) :
    c.tradeId = context.tradeId ∧ c.symbol = context.symbol := by
  unfold Context.normalise at h
  split at h
  · obtain rfl := Except.ok.inj h
    exact ⟨rfl, rfl⟩
  · simp at h

/-- A decision is about the trade of its context. -/
theorem symbol_decision {c : Context} {r : Response} (h : p.identified c = .ok r) :
    (p.decision c r).symbol = c.symbol := by
  obtain ⟨id, -, h⟩ := bind_eq_ok_iff.1 h
  obtain ⟨position, -, h⟩ := bind_eq_ok_iff.1 h
  obtain rfl := Except.ok.inj h
  simp only [decision, quantify, chooseAction]
  split <;> rfl

theorem Decided.symbol_eq {decided : Response} (h : p.Decided context decided) :
    decided.symbol = context.symbol := by
  obtain ⟨c, r, hnormal, -, hidentify, rfl⟩ := h
  rw [symbol_decision hidentify, (names_of_normalise hnormal).2]

/-! ## Recording -/

theorem conclude_of_none (hledger : p.ledger? = none) (disk : Disk) (clock : Readings)
    (r : Response) (log : List Log.Entry) :
    (p.conclude disk clock r log).result =
        { r with reason := ledgerDisabledReason, status := .processed } ∧
      (p.conclude disk clock r log).state.1.tracker =
        p.tracker.settle r.symbol clock.settlement (.commit r.action.countsAsAttempt) ∧
      (p.conclude disk clock r log).state.1.ledger? = none ∧
      (p.conclude disk clock r log).state.2 = disk := by
  simp [conclude, record, hledger, finish, settle]

theorem conclude_of_error {ledger : Ledger} (hledger : p.ledger? = some ledger) {r : Response}
    {e : Ledger.WriteError} (h : (ledger.append disk clock.writing r.toRow).result = .error e)
    (log : List Log.Entry) :
    (p.conclude disk clock r log).result.status = .writeFailure ∧
      (p.conclude disk clock r log).state.1.tracker =
        p.tracker.settle r.symbol clock.settlement .release ∧
      (p.conclude disk clock r log).state.1.ledger? =
        some (ledger.append disk clock.writing r.toRow).state.1 ∧
      (p.conclude disk clock r log).state.2 =
        (ledger.append disk clock.writing r.toRow).state.2 := by
  simp [conclude, record, hledger, h, Except.map, finish, settle]

theorem conclude_of_ok {ledger : Ledger} (hledger : p.ledger? = some ledger) {r : Response}
    {receipt : Ledger.Receipt}
    (h : (ledger.append disk clock.writing r.toRow).result = .ok receipt) (log : List Log.Entry) :
    (p.conclude disk clock r log).result = { r with
        sequence := receipt.sequence, checksum := receipt.checksum, status := .processed } ∧
      (p.conclude disk clock r log).state.1.tracker =
        p.tracker.settle r.symbol clock.settlement (.commit r.action.countsAsAttempt) ∧
      (p.conclude disk clock r log).state.1.ledger? =
        some (ledger.append disk clock.writing r.toRow).state.1 ∧
      (p.conclude disk clock r log).state.2 =
        (ledger.append disk clock.writing r.toRow).state.2 := by
  simp [conclude, record, hledger, h, Except.map, finish, settle]

/-! ## Answering -/

/-- How the decision of an admitted symbol ends. -/
theorem effect_decide {c : Context} (hnormal : context.normalise p.vocabulary = .ok c)
    (hgate : gate? p.settings c = none)
    (hacquire : (p.tracker.acquire c.symbol clock.admission).1 = .ok ()) :
    Effect p disk clock context
      (({ p with tracker := (p.tracker.acquire c.symbol clock.admission).2 } : Processor).decide disk
        clock c { tradeId := c.tradeId, symbol := c.symbol, generation := c.generation }) := by
  unfold decide
  dsimp only
  rw [← classified, ← parameters, ← identified]
  cases hidentify : p.identified c with
  | error e => exact .unidentified c.symbol hacquire (by simp [finish, classified, classify]) rfl rfl rfl
  | ok r =>
    have hdecided : Decided p context (p.decision c r) := ⟨c, r, hnormal, hgate, hidentify, rfl⟩
    rw [← symbol_decision hidentify] at hacquire ⊢
    dsimp only
    rw [← decision]
    -- The processor that records has the admission and the counts of the resolver, and is the same in
    -- all else.
    obtain ⟨q, hq⟩ : ∃ q, q = ({ p with
        tracker := (p.tracker.acquire (p.decision c r).symbol clock.admission).2
        resolver := (p.resolver.resolve (requestOf c (p.classified c))).state } : Processor) :=
      ⟨_, rfl⟩
    have htracker : q.tracker = (p.tracker.acquire (p.decision c r).symbol clock.admission).2 := by
      rw [hq]
    have hsame : q.ledger? = p.ledger? := by rw [hq]
    rw [← hq]
    cases hledger : p.ledger? with
    | none =>
      obtain ⟨hresult, hsettle, hnone, hdisk⟩ := conclude_of_none (hsame.trans hledger) disk clock
        (p.decision c r) (p.resolver.resolve (requestOf c (p.classified c))).log
      rw [htracker] at hsettle
      exact .unrecorded _ hdecided hacquire hledger hresult hsettle hnone hdisk
    | some ledger =>
      cases happend : (ledger.append disk clock.writing (p.decision c r).toRow).result with
      | error e =>
        obtain ⟨hstatus, hsettle, hafter, hdisk⟩ := conclude_of_error (hsame.trans hledger) happend
          (p.resolver.resolve (requestOf c (p.classified c))).log
        rw [htracker] at hsettle
        exact .unwritten _ ledger e hdecided hacquire hledger happend (by simp [hstatus]) hsettle
          hafter hdisk
      | ok receipt =>
        obtain ⟨hresult, hsettle, hafter, hdisk⟩ := conclude_of_ok (hsame.trans hledger) happend
          (p.resolver.resolve (requestOf c (p.classified c))).log
        rw [htracker] at hsettle
        exact .recorded _ ledger receipt hdecided hacquire hledger happend hresult hsettle hafter
          hdisk

/-- Every answer ends in one of the ways. -/
theorem effect_answer (p : Processor) (disk : Disk) (clock : Readings) (context : Context) :
    Effect p disk clock context (p.answer disk clock context) := by
  unfold answer
  cases hnormal : context.normalise p.vocabulary with
  | error problems => exact .unasked (by simp [finish]) rfl rfl rfl
  | ok c =>
    obtain ⟨htrade, hsymbol⟩ := names_of_normalise hnormal
    dsimp only
    rw [← htrade, ← hsymbol]
    cases hgate : gate? p.settings c with
    | some gate => exact .unasked (by simp [skip, finish]) rfl rfl rfl
    | none =>
      cases hanswer : p.tracker.acquire c.symbol clock.admission with
      | mk answer tracker =>
        cases answer with
        | error refusal =>
          refine .refused c.symbol refusal (by rw [hanswer]) (by simp [skip, finish]) ?_ rfl rfl
          rw [hanswer]
          rfl
        | ok _ =>
          have hdecide : Effect p disk clock context _ :=
            effect_decide hnormal hgate (by rw [hanswer])
          rw [hanswer] at hdecide
          exact hdecide

/-! ## Decisions that are not recorded -/

/-- An answer to a context that comes to a decision records it. -/
theorem answer_of_decision? {r : Response} {log : List Log.Entry}
    (h : p.decision? clock context = some (r, log)) (disk : Disk) :
    ∃ q : Processor, q.ledger? = p.ledger? ∧
      p.answer disk clock context = q.conclude disk clock r log := by
  unfold decision? at h
  unfold answer
  cases hnormal : context.normalise p.vocabulary with
  | error problems => simp [hnormal] at h
  | ok c =>
    obtain ⟨htrade, hsymbol⟩ := names_of_normalise hnormal
    simp only [hnormal] at h
    dsimp only
    split at h
    next id hgate hacquire hidentify =>
      obtain ⟨rfl, rfl⟩ := Prod.mk.inj (Option.some.inj h)
      rw [hgate, ← htrade, ← hsymbol]
      cases hanswer : p.tracker.acquire c.symbol clock.admission with
      | mk answer tracker =>
        obtain rfl : answer = .ok () := by rw [hanswer] at hacquire; exact hacquire
        refine ⟨{ p with tracker, resolver := (p.resolver.resolve (requestOf c (p.classified c))).state },
          rfl, ?_⟩
        dsimp only
        unfold decide
        dsimp only
        rw [← classified, ← parameters, ← identified, hidentify]
        rfl
    · simp at h

/-- An answer to a context that comes to no decision is none that could not be written. -/
theorem status_of_decision?_eq_none (h : p.decision? clock context = none) (disk : Disk) :
    (p.answer disk clock context).result.status ≠ .writeFailure := by
  unfold decision? at h
  unfold answer
  cases hnormal : context.normalise p.vocabulary with
  | error problems => simp [finish]
  | ok c =>
    obtain ⟨htrade, hsymbol⟩ := names_of_normalise hnormal
    simp only [hnormal] at h
    dsimp only
    cases hgate : gate? p.settings c with
    | some gate => simp [skip, finish]
    | none =>
      cases hanswer : p.tracker.acquire c.symbol clock.admission with
      | mk answer tracker =>
        cases answer with
        | error refusal => simp [skip, finish]
        | ok _ =>
          rw [hgate, hanswer] at h
          rw [← htrade, ← hsymbol]
          dsimp only
          unfold decide
          dsimp only
          rw [← classified, ← parameters, ← identified]
          cases hidentify : p.identified c with
          | error e => simp [finish, classified, classify]
          | ok r => simp [hidentify] at h

/-- A decision that could not be written tells the error of its row. An answer that meets no directory does
not tell that the file cannot be read. -/
theorem writeError_of_answer (hgoes : p.abortLog? disk clock context = none)
    (hstatus : (p.answer disk clock context).result.status = .writeFailure) :
    ∃ e : Ledger.WriteError, (∀ path, e ≠ .unreadable path) ∧
      (p.answer disk clock context).result.reason = "write_failure: " ++ e.message := by
  cases hdecision : p.decision? clock context with
  | none => exact absurd hstatus (status_of_decision?_eq_none hdecision disk)
  | some decided =>
    obtain ⟨r, log⟩ := decided
    obtain ⟨q, hsame, hanswer⟩ := answer_of_decision? hdecision disk
    rw [hanswer] at hstatus ⊢
    cases hledger : p.ledger? with
    | none =>
      rw [(conclude_of_none (hsame.trans hledger) ..).1] at hstatus
      simp at hstatus
    | some ledger =>
      cases happend : (ledger.append disk clock.writing r.toRow).result with
      | ok receipt =>
        rw [(conclude_of_ok (hsame.trans hledger) happend ..).1] at hstatus
        simp at hstatus
      | error e =>
        refine ⟨e, fun path heq => ?_, ?_⟩
        · have hmeets := Ledger.append_unreadable_iff.1 ⟨path, heq ▸ happend⟩
          simp [abortLog?, hledger, hdecision, hmeets] at hgoes
        · simp [conclude, record, hsame, hledger, happend, Except.map, finish]

/-! ## What an answer keeps -/

/-- Whether two processors have the same settings and choose among the same sets. -/
structure SameSetup (p q : Processor) : Prop where
  settings : q.settings = p.settings
  vocabulary : q.vocabulary = p.vocabulary
  resolverSettings : q.resolver.settings = p.resolver.settings
  resolverVocabulary : q.resolver.vocabulary = p.resolver.vocabulary
  snapshot : q.resolver.snapshot = p.resolver.snapshot

theorem sameSetup_record (p : Processor) (disk : Disk) (now : Instant) (r : Response) :
    SameSetup p (p.record disk now r).state.1 := by
  unfold record
  split <;> exact ⟨rfl, rfl, rfl, rfl, rfl⟩

theorem sameSetup_conclude (p : Processor) (disk : Disk) (clock : Readings) (r : Response)
    (log : List Log.Entry) : SameSetup p (p.conclude disk clock r log).state.1 := by
  obtain ⟨hsettings, hvocabulary, hresolver, hwords, hsnapshot⟩ :=
    sameSetup_record p disk clock.writing r
  unfold conclude
  dsimp only
  split <;> exact ⟨hsettings, hvocabulary, hresolver, hwords, hsnapshot⟩

theorem sameSetup_decide (p : Processor) (disk : Disk) (clock : Readings) (c : Context)
    (r : Response) : SameSetup p (p.decide disk clock c r).state.1 := by
  unfold decide
  dsimp only
  obtain ⟨hsettings, hwords, hsnapshot⟩ :=
    p.resolver.snapshot_resolve (requestOf c (classify p.settings c r))
  split
  · exact ⟨rfl, rfl, hsettings, hwords, hsnapshot⟩
  · have h := sameSetup_conclude
      { p with resolver := (p.resolver.resolve (requestOf c (classify p.settings c r))).state }
    exact ⟨(h ..).settings, (h ..).vocabulary, (h ..).resolverSettings.trans hsettings,
      (h ..).resolverVocabulary.trans hwords, (h ..).snapshot.trans hsnapshot⟩

/-- An answer changes no setting and no set. -/
theorem sameSetup_answer (p : Processor) (disk : Disk) (clock : Readings) (context : Context) :
    SameSetup p (p.answer disk clock context).state.1 := by
  unfold answer
  dsimp only
  split
  · exact ⟨rfl, rfl, rfl, rfl, rfl⟩
  · split
    · exact ⟨rfl, rfl, rfl, rfl, rfl⟩
    · split
      · exact ⟨rfl, rfl, rfl, rfl, rfl⟩
      next tracker _ =>
        have h := sameSetup_decide { p with tracker }
        exact ⟨(h ..).settings, (h ..).vocabulary, (h ..).resolverSettings, (h ..).resolverVocabulary,
          (h ..).snapshot⟩

end Processor

end TradeReentry
