import TradeReentry.Proofs.Admission.Locality
import TradeReentry.Proofs.Decision.Answers

/-!
# Decisions on different symbols

An answer reads of a processor its settings, its sets and what the tracker knows of the symbol.
`Processor.answer_local` finds from these a verdict, which is the response without the number and
the checksum of its row, the change of the tracker, and the tier that the resolver counts. Verdicts
on two symbols can be carried out in either order, so that decisions on different symbols do not
depend on which of them comes first (`Processor.processAll_comm`).
-/

namespace TradeReentry

/-- A response without what the ledger gives to its row. -/
def Response.unnumbered (r : Response) : Response := { r with sequence := 0, checksum := [] }

/-! ## Counts -/

namespace Resolver

/-- The resolver after a request that a tier answered, or after none. -/
def counted (r : Resolver) : Option Text → Resolver
  | none => r
  | some tier => r.countResolve tier

theorem countResolve_comm (r : Resolver) (tier other : Text) :
    (r.countResolve tier).countResolve other = (r.countResolve other).countResolve tier := by
  simp only [countResolve, NameMap.modify_comm _ tier other, Nat.add_right_comm]

theorem counted_comm (r : Resolver) (tier? other? : Option Text) :
    (r.counted tier?).counted other? = (r.counted other?).counted tier? := by
  cases tier? with
  | none => rfl
  | some tier =>
    cases other? with
    | none => rfl
    | some other => exact countResolve_comm r tier other

/-- The parameters for a request depend only on the sets and the hierarchy, and the tier that they
come from is counted. -/
theorem resolve_local {r r' : Resolver} (hsettings : r'.settings = r.settings)
    (hsnapshot : r'.snapshot = r.snapshot) (request : ResolveRequest) :
    (r'.resolve request).result = (r.resolve request).result ∧
      (r'.resolve request).state = r'.counted (some (r.resolve request).result.tier) := by
  unfold resolve
  rw [hsettings, hsnapshot]
  split <;> exact ⟨rfl, rfl⟩

end Resolver

namespace Processor

/-- The tally does not look at rows. -/
theorem Tally.count_unnumbered (t : Tally) (r : Response) : t.count r.unnumbered = t.count r := rfl

theorem Tally.count_comm (t : Tally) (r other : Response) :
    (t.count r).count other = (t.count other).count r := by
  unfold count
  cases r.status <;> cases other.status <;>
    simp only [Nat.add_right_comm, NameMap.modify_comm _ r.reason other.reason]

/-! ## Verdicts -/

/-- What an answer comes to, apart from the row that it adds. -/
structure Verdict where
  response : Response
  change : Tracker.Change := {}
  tier? : Option Text := none

/-- A verdict on a symbol is carried out. -/
structure CarriesOut (v : Verdict) (symbol : Text) (p : Processor)
    (step : Step (Processor × Disk) Response) : Prop where
  response : step.result.unnumbered = v.response
  tracker : step.state.1.tracker = p.tracker.apply symbol v.change
  resolver : step.state.1.resolver = p.resolver.counted v.tier?
  tally : step.state.1.tally = p.tally.count v.response
  ledger : step.state.1.ledger? = none ↔ p.ledger? = none

/-- Whether two processors decide a symbol alike: they have the same setup, they treat the symbol
alike, and both or neither keep a ledger. -/
structure Alike (symbol : Text) (p q : Processor) : Prop extends SameSetup p q where
  tracker : Tracker.Alike symbol p.tracker q.tracker
  ledger : q.ledger? = none ↔ p.ledger? = none

theorem Alike.refl (symbol : Text) (p : Processor) : Alike symbol p p :=
  ⟨⟨rfl, rfl, rfl, rfl, rfl⟩, ⟨rfl, rfl, rfl⟩, Iff.rfl⟩

/-- A verdict on one symbol is not seen by another one. -/
theorem CarriesOut.alike {v : Verdict} {symbol other : Text} {p : Processor}
    {step : Step (Processor × Disk) Response} (h : CarriesOut v symbol p step)
    (hsetup : SameSetup p step.state.1) (hne : symbol ≠ other) : Alike other p step.state.1 := by
  refine ⟨hsetup, ?_, h.ledger⟩
  rw [h.tracker]
  exact Tracker.Alike.apply ⟨rfl, rfl, rfl⟩ hne v.change

/-- Whether a verdict on a context is carried out by every processor that decides its symbol alike,
unless the row is not written. -/
def Verdict.IsOf (v : Verdict) (p : Processor) (now : Instant) (context : Context) : Prop :=
  ∀ q disk, Alike context.symbol p q →
    q.ledger? = none ∨ (q.process disk now context).result.status ≠ .writeFailure →
    CarriesOut v context.symbol q (q.process disk now context)

theorem carriesOut_finish {v : Verdict} {symbol : Text} {p q : Processor} {r : Response}
    (hresponse : r.unnumbered = v.response)
    (htracker : q.tracker = p.tracker.apply symbol v.change)
    (hresolver : q.resolver = p.resolver.counted v.tier?) (htally : q.tally = p.tally)
    (hledger : q.ledger? = none ↔ p.ledger? = none) (disk : Disk) (log : List Log.Entry) :
    CarriesOut v symbol p (q.finish disk r log) where
  response := hresponse
  tracker := htracker
  resolver := hresolver
  tally := by
    rw [← hresponse, Tally.count_unnumbered, ← htally]
    rfl
  ledger := hledger

/-! ## What is read -/

/-- Recording a decision comes to the same wherever it succeeds. -/
theorem conclude_local (p : Processor) (now : Instant) (r : Response) :
    ∃ response change, ∀ q disk log, Alike r.symbol p q →
      q.ledger? = none ∨ (q.conclude disk (.constant now) r log).result.status ≠ .writeFailure →
      CarriesOut ⟨response, change, none⟩ r.symbol q
        (q.conclude disk (.constant now) r log) := by
  obtain ⟨change, hsettle⟩ :=
    p.tracker.settle_local r.symbol now (.commit r.action.countsAsAttempt)
  refine ⟨({ r with
      status := .processed
      reason := if p.ledger? = none then ledgerDisabledReason else r.reason } :
    Response).unnumbered, change, ?_⟩
  intro q disk log h hwritten
  unfold conclude record at hwritten ⊢
  cases hledger : q.ledger? with
  | none =>
    rw [if_pos (h.ledger.1 hledger)]
    refine carriesOut_finish ?_ (hsettle _ h.tracker) ?_ ?_ ?_ _ _
    all_goals rfl
  | some ledger =>
    have hpresent : p.ledger? ≠ none := fun hnone => by
      simp [h.ledger.2 hnone] at hledger
    rw [if_neg hpresent]
    rw [hledger] at hwritten
    cases happend : (ledger.append disk now r.toRow).result with
    | error e =>
      simp [happend, Readings.constant, Except.map, finish] at hwritten
    | ok receipt =>
      simp only [Readings.constant, happend, Except.map]
      refine carriesOut_finish ?_ (hsettle _ h.tracker) ?_ ?_ ?_ _ _
      · rfl
      · rfl
      · rfl
      · simp [settle, hledger]

section Alike

variable {symbol : Text} {p q : Processor}

theorem Alike.classified (h : Alike symbol p q) (c : Context) : q.classified c = p.classified c := by
  rw [Processor.classified, h.settings]
  rfl

theorem Alike.parameters (h : Alike symbol p q) (c : Context) : q.parameters c = p.parameters c := by
  rw [Processor.parameters, h.classified]
  exact (Resolver.resolve_local h.resolverSettings h.snapshot _).1

theorem Alike.identified (h : Alike symbol p q) (c : Context) : q.identified c = p.identified c := by
  rw [Processor.identified, h.classified, h.parameters, h.vocabulary]
  rfl

theorem Alike.decision (h : Alike symbol p q) (c : Context) (r : Response) :
    q.decision c r = p.decision c r := by
  rw [Processor.decision, h.parameters, h.settings]
  rfl

end Alike

/-- Deciding a context comes to the same wherever its symbol is known alike. -/
theorem decide_local (p : Processor) (now : Instant) (c : Context) :
    ∃ v, ∀ q disk, Alike c.symbol p q →
      q.ledger? = none ∨ (q.decide disk (.constant now) c
        { tradeId := c.tradeId, symbol := c.symbol, generation := c.generation }).result.status ≠
          .writeFailure →
      CarriesOut v c.symbol q (q.decide disk (.constant now) c
        { tradeId := c.tradeId, symbol := c.symbol, generation := c.generation }) := by
  cases hidentify : p.identified c with
  | error e =>
    obtain ⟨change, hsettle⟩ := p.tracker.settle_local c.symbol now .release
    refine ⟨⟨{ p.classified c with
        parameterSetId := (p.parameters c).setId
        resolvedTier := (p.parameters c).tier
        reason := e.fullMessage }, change, some (p.parameters c).tier⟩, ?_⟩
    intro q disk h _
    unfold decide
    dsimp only
    rw [← classified, ← parameters, ← identified, h.identified, hidentify]
    refine carriesOut_finish ?_ (hsettle _ h.tracker) ?_ ?_ ?_ _ _
    · rw [h.classified, h.parameters]
      rfl
    · rw [← h.parameters]
      exact (Resolver.resolve_local rfl rfl _).2
    · rfl
    · rfl
  | ok found =>
    obtain ⟨response, change, hconclude⟩ := p.conclude_local now (p.decision c found)
    rw [symbol_decision hidentify] at hconclude
    refine ⟨⟨response, change, some (p.parameters c).tier⟩, ?_⟩
    intro q disk h
    have hstate := (q.resolver.resolve_local rfl rfl (requestOf c (q.classified c))).2
    unfold decide
    dsimp only
    rw [← classified, ← parameters, ← identified, h.identified, hidentify]
    dsimp only
    rw [← decision, h.decision, hstate]
    intro hwritten
    obtain ⟨hresponse, htracker, hresolver, htally, hledger⟩ := hconclude
      { q with resolver := q.resolver.counted (some (q.parameters c).tier) } disk _
      ⟨⟨h.settings, h.vocabulary, h.resolverSettings, h.resolverVocabulary, h.snapshot⟩, h.tracker, h.ledger⟩ hwritten
    refine ⟨hresponse, htracker, ?_, htally, hledger⟩
    rw [← h.parameters]
    exact hresolver

/-- Answering a context comes to the same wherever its symbol is known alike. -/
theorem answer_local (p : Processor) (now : Instant) (context : Context) :
    ∃ v, Verdict.IsOf v p now context := by
  unfold Verdict.IsOf process answer
  cases hnormal : context.normalise p.vocabulary with
  | error problems =>
    refine ⟨⟨{
      tradeId := context.tradeId
      symbol := context.symbol
      reason := Context.problemsText problems }, {}, none⟩, ?_⟩
    intro q disk h _
    dsimp only
    rw [h.vocabulary, hnormal]
    refine carriesOut_finish ?_ ?_ ?_ ?_ ?_ _ _
    all_goals rfl
  | ok c =>
    obtain ⟨htrade, hsymbol⟩ := names_of_normalise hnormal
    rw [← htrade, ← hsymbol]
    cases hgate : gate? p.settings c with
    | some gate =>
      refine ⟨⟨{
        tradeId := c.tradeId
        symbol := c.symbol
        generation := c.generation
        status := .skipped
        reason := gate.reason }, {}, none⟩, ?_⟩
      intro q disk h _
      dsimp only
      rw [h.vocabulary, hnormal]
      dsimp only
      rw [h.settings, hgate]
      refine carriesOut_finish ?_ ?_ ?_ ?_ ?_ _ _
      all_goals rfl
    | none =>
      obtain ⟨answer, admission, hacquire⟩ := p.tracker.acquire_local c.symbol now
      cases answer with
      | error refusal =>
        refine ⟨⟨{
          tradeId := c.tradeId
          symbol := c.symbol
          generation := c.generation
          status := .skipped
          reason := refusal.reason }, admission, none⟩, ?_⟩
        intro q disk h _
        dsimp only
        rw [h.vocabulary, hnormal]
        dsimp only
        rw [h.settings, hgate]
        dsimp only [Readings.constant]
        rw [hacquire q.tracker h.tracker]
        refine carriesOut_finish ?_ ?_ ?_ ?_ ?_ _ _
        all_goals rfl
      | ok admitted =>
        obtain ⟨v, hdecide⟩ :=
          ({ p with tracker := p.tracker.apply c.symbol admission } : Processor).decide_local now c
        refine ⟨⟨v.response, admission.andThen v.change, v.tier?⟩, ?_⟩
        intro q disk h
        have hsame : context.normalise q.vocabulary = .ok c := by rw [h.vocabulary, hnormal]
        have hpassed : gate? q.settings c = none := by rw [h.settings, hgate]
        dsimp only
        rw [hsame]
        dsimp only
        rw [hpassed]
        dsimp only [Readings.constant]
        rw [hacquire q.tracker h.tracker]
        intro hwritten
        obtain ⟨hresponse, htracker, hresolver, htally, hledger⟩ :=
          hdecide { q with tracker := q.tracker.apply c.symbol admission } disk
            ⟨⟨h.settings, h.vocabulary, h.resolverSettings, h.resolverVocabulary, h.snapshot⟩,
              h.tracker.apply_apply admission, h.ledger⟩ hwritten
        refine ⟨hresponse, ?_, hresolver, htally, hledger⟩
        rw [← Tracker.apply_apply]
        exact htracker

/-! ## Two decisions -/

/-- Verdicts on two symbols are carried out one after the other. -/
theorem processAll_pair {p : Processor} {now : Instant} {first second : Context} {v w : Verdict}
    (hv : v.IsOf p now first) (hw : w.IsOf p now second) (hne : first.symbol ≠ second.symbol)
    {disk : Disk} (hwritten : p.ledger? = none ∨
      ∀ r ∈ (p.processAll disk now [first, second]).result, r.status ≠ .writeFailure) :
    let step := p.processAll disk now [first, second]
    step.result.map Response.unnumbered = [v.response, w.response] ∧
      step.state.1.tracker =
        (p.tracker.apply first.symbol v.change).apply second.symbol w.change ∧
      step.state.1.resolver = (p.resolver.counted v.tier?).counted w.tier? ∧
      step.state.1.tally = (p.tally.count v.response).count w.response := by
  have hfirst := hv p disk (.refl _ p) (hwritten.imp_right fun h => h _ List.mem_cons_self)
  have hsetup : SameSetup p (p.process disk now first).state.1 := sameSetup_answer ..
  have hsecond := hw _ (p.process disk now first).state.2 (hfirst.alike hsetup hne)
    (hwritten.imp hfirst.ledger.2 fun h => h _ (List.mem_cons_of_mem _ List.mem_cons_self))
  refine ⟨?_, ?_, ?_, ?_⟩
  · rw [← hfirst.response, ← hsecond.response]
    rfl
  · rw [← hfirst.tracker, ← hsecond.tracker]
    rfl
  · rw [← hfirst.resolver, ← hsecond.resolver]
    rfl
  · rw [← hfirst.tally, ← hsecond.tally]
    rfl

/-- Decisions on two symbols at one instant come to the same in either order, unless a row is not
written: the responses but for the numbers and checksums of their rows, the cooldowns, the attempts
and every count. -/
theorem processAll_comm (p : Processor) {first second : Context}
    (hne : first.symbol ≠ second.symbol) (disk : Disk) (now : Instant)
    (hwritten : p.ledger? = none ∨
      ∀ r ∈ (p.processAll disk now [first, second]).result ++
        (p.processAll disk now [second, first]).result, r.status ≠ .writeFailure) :
    let forth := p.processAll disk now [first, second]
    let back := p.processAll disk now [second, first]
    back.result.map Response.unnumbered = (forth.result.map Response.unnumbered).reverse ∧
      back.state.1.tracker = forth.state.1.tracker ∧
      back.state.1.resolver = forth.state.1.resolver ∧
      back.state.1.tally = forth.state.1.tally ∧
      ∀ later, back.state.1.stats later = forth.state.1.stats later := by
  intro forth back
  obtain ⟨v, hv⟩ := p.answer_local now first
  obtain ⟨w, hw⟩ := p.answer_local now second
  obtain ⟨hresult, htracker, hresolver, htally⟩ := processAll_pair hv hw hne
    (hwritten.imp_right fun h r hr => h r (List.mem_append_left _ hr))
  obtain ⟨hresult', htracker', hresolver', htally'⟩ := processAll_pair hw hv (Ne.symm hne)
    (hwritten.imp_right fun h r hr => h r (List.mem_append_right _ hr))
  have htrackers : back.state.1.tracker = forth.state.1.tracker := by
    rw [htracker, htracker', Tracker.apply_comm _ hne]
  have htallies : back.state.1.tally = forth.state.1.tally := by
    rw [htally, htally', Tally.count_comm]
  refine ⟨?_, htrackers, ?_, htallies, ?_⟩
  · rw [hresult, hresult']
    rfl
  · rw [hresolver, hresolver', Resolver.counted_comm]
  · intro later
    rw [stats, stats, htrackers, htallies]

/-- Two trades on different symbols that are recorded in a ledger. -/
theorem processAll_comm_recorded :
    let p : Processor := {
      settings := {}, vocabulary := .builtin
      resolver := { settings := {}, vocabulary := .builtin }
      tracker := { cooldownMinutes := 15, maxAttemptsPerDay := 5 }
      ledger? := some { settings := { outputDirectory := "d" }, schema := .reentryDecisions } }
    let disk : Disk := { working := .directory "d" .empty .empty }
    let first : Context := {
      tradeId := "T1", symbol := "EURUSD", lotSize := .ofDecimal 1 1, durationMinutes := .ofNat 10 }
    let second : Context := {
      tradeId := "T2", symbol := "GBPUSD", lotSize := .ofDecimal 1 1, durationMinutes := .ofNat 10 }
    let forth := p.processAll disk 1768471200000 [first, second]
    let back := p.processAll disk 1768471200000 [second, first]
    first.symbol ≠ second.symbol ∧ forth.result.map (·.sequence) = [1, 2] ∧
      back.result.map Response.unnumbered = (forth.result.map Response.unnumbered).reverse ∧
      back.state.1.tracker = forth.state.1.tracker := by
  intro p disk first second forth back
  have hne : first.symbol ≠ second.symbol := by decide
  have hforth : forth.result.map (·.sequence) = [1, 2] := by decide +kernel
  have hwritten : ∀ r ∈ forth.result ++ back.result, r.status ≠ .writeFailure := by
    decide +kernel
  obtain ⟨hresult, htracker, -⟩ := processAll_comm p hne disk 1768471200000 (.inr hwritten)
  exact ⟨hne, hforth, hresult, htracker⟩

end Processor

end TradeReentry
