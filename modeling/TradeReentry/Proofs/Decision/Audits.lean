import TradeReentry.Proofs.Decision.Records
import TradeReentry.Proofs.Settings.Bounds

/-!
# When the files of a processor pass an audit

A processor that has its parameter sets from files answers contexts and records its decisions in a
directory without ledger files. Every answer keeps `Serving`, which says what the rows of the decisions
are; so the files pass an audit exactly if the lots of all decisions are in range (`audits_of_served`).
-/

namespace TradeReentry

open Files

/-! ## Lot steps of settings that were checked -/

namespace Settings

/-- The lot steps of settings that keep the rules are above zero. -/
theorem zero_lt_lotStepOf {s : Settings} (h : s.check = .ok ()) {symbol : Text}
    (hfinite : (s.processor.lotStepOf symbol).isFinite = true) :
    Binary64.zero < s.processor.lotStepOf symbol := by
  obtain ⟨-, -, -, hstep, hsteps, -⟩ := forall_bounds_iff.1 (check_eq_ok_iff.1 h).2
  apply Binary64.zero_lt_of_not_le (Binary64.not_isNaN_of_isFinite hfinite)
  rw [ProcessorSettings.lotStepOf]
  cases hfound : s.processor.lotSteps.find? symbol with
  | none => exact hstep
  | some step =>
    exact checkLotSteps_eq_ok_iff.1 hsteps (symbol, step) ((NameMap.mem_entries_iff ..).2 hfound)

end Settings

namespace Processor

/-! ## Runs -/

/-- A context, the parameters that were in force for it, and the answer. -/
structure Answered where
  context : Context
  parameters : ResolvedParameters
  response : Response

namespace Answered

/-- Whether the decision was processed. -/
def Processed (a : Answered) : Prop := a.response.status = .processed

instance (a : Answered) : Decidable a.Processed := inferInstanceAs (Decidable (_ = _))

/-- Whether the lot of the context can be brought to the grid. -/
def InRange (s : ProcessorSettings) (a : Answered) : Prop :=
  s.InRange a.context.symbol a.context.lotSize a.parameters.lotSizeMultiplier

instance (s : ProcessorSettings) (a : Answered) : Decidable (a.InRange s) :=
  inferInstanceAs (Decidable (s.InRange ..))

/-- What holds of the answer to a context that was processed. -/
structure Proper (s : ProcessorSettings) (a : Answered) : Prop where
  texts : ∀ t ∈ a.response.texts, t ≠ []
  lot : ParameterSet.IsAmount a.context.lotSize
  multiplier : ParameterSet.IsAmount a.parameters.lotSizeMultiplier
  stopLoss : ParameterSet.IsAmount a.response.stopLoss
  takeProfit : ParameterSet.IsAmount a.response.takeProfit
  lotSize : a.response.lotSize =
    s.sizeLot a.context.symbol a.context.lotSize a.parameters.lotSizeMultiplier

/-- The row of a proper answer has cells of the right kinds exactly if its lot is in range. -/
theorem Proper.fits_iff {s : ProcessorSettings} {a : Answered} (h : a.Proper s)
    (hstep : Binary64.zero < s.lotStepOf a.context.symbol)
    (hfinite : (s.lotStepOf a.context.symbol).isFinite = true) :
    Schema.reentryDecisions.Fits a.response.toRow ↔ a.InRange s := by
  rw [Response.fits_toRow_iff, InRange, ← ProcessorSettings.isFinite_sizeLot_iff hstep hfinite h.lot.1
    h.multiplier.1 h.multiplier.2, ← h.lotSize]
  simp only [Response.numbers, List.forall_mem_cons, h.stopLoss.2, h.takeProfit.2,
    List.not_mem_nil, false_imp_iff, implies_true, and_true, and_iff_right h.texts]

end Answered

/-- Whether the sets of a resolver are those of a file. -/
def FromFile (settings : ResolverSettings) (r : Resolver) : Prop :=
  r.settings = settings ∧ ∃ disk path,
    ParameterSet.ofFile disk path .builtin settings.tierHierarchy = .ok r.snapshot.sets

/-- The answers of a processor to contexts that are given to it one after the other at instants of the
era, with its state and the disk. The sets may be loaded again from other files. -/
inductive Served (settings : Settings) (origin : Disk) :
    List Answered → Processor → Disk → Prop where
  | start (resolver : Resolver) (hfile : FromFile settings.resolver resolver) :
    Served settings origin [] {
      settings := settings.processor, vocabulary := .builtin, resolver
      tracker := {
        cooldownMinutes := settings.processor.cooldownMinutes
        maxAttemptsPerDay := settings.processor.maxAttemptsPerDay }
      ledger? := some { settings := settings.ledger, schema := .reentryDecisions } } origin
  | answer {history : List Answered} {p : Processor} {disk : Disk}
      (h : Served settings origin history p disk) (clock : Readings) (hera : clock.writing.InEra)
      (context : Context) :
    Served settings origin
      (history ++ [{
        context, parameters := p.parameters (context.spelled p.vocabulary)
        response := (p.answer disk clock context).result }])
      (p.answer disk clock context).state.1 (p.answer disk clock context).state.2
  | reload {history : List Answered} {p : Processor} {disk : Disk}
      (h : Served settings origin history p disk) (resolver : Resolver)
      (hfile : FromFile settings.resolver resolver) :
    Served settings origin history { p with resolver } disk

/-! ## The invariant -/

/-- The rows of the decisions that were processed, in order. -/
def rowsOf (history : List Answered) : List Row :=
  (history.filter (·.Processed)).map (·.response.toRow)

/-- How the processor and the disk stand to the answers so far. -/
structure Serving (settings : Settings) (origin : Disk) (history : List Answered) (p : Processor)
    (disk : Disk) : Prop where
  settings_eq : p.settings = settings.processor
  resolver_eq : p.resolver.settings = settings.resolver
  sets : ∀ set ∈ p.resolver.snapshot.sets, set.Sound
  ledger : ∃ entries ledger, p.ledger? = some ledger ∧
    Ledger.Reached .reentryDecisions settings.ledger.outputDirectory origin entries ledger disk ∧
    entries.map (·.row) = rowsOf history
  proper : ∀ a ∈ history, a.Processed → a.Proper settings.processor

variable {settings : Settings} {origin : Disk} {history : List Answered} {p : Processor} {disk : Disk}
  {context : Context} {r : Response}

theorem sound_of_fromFile {resolver : Resolver} (h : FromFile settings.resolver resolver) :
    ∀ set ∈ resolver.snapshot.sets, set.Sound := by
  obtain ⟨-, disk, path, hsets⟩ := h
  exact ParameterSet.sound_of_ofFile hsets

theorem rowsOf_append (history : List Answered) (a : Answered) :
    rowsOf (history ++ [a]) = rowsOf history ++ if a.Processed then [a.response.toRow] else [] := by
  rw [rowsOf, List.filter_append, List.map_append, ← rowsOf]
  by_cases h : a.Processed <;> simp [h]

namespace Serving

/-- A decision of a processor whose sets are sound is proper. -/
theorem proper_of_decided (h : Serving settings origin history p disk)
    (htiers : [] ∉ settings.resolver.tierHierarchy) (hdecided : p.Decided context r)
    (receipt : Ledger.Receipt) :
    Answered.Proper settings.processor {
      context, parameters := p.parameters (context.spelled p.vocabulary)
      response := { r with
        sequence := receipt.sequence, checksum := receipt.checksum, status := .processed } } := by
  obtain ⟨c, hnormal, hdecision⟩ := hdecided.decision
  obtain ⟨rfl, htrade, hsymbol, hlot⟩ := Context.facts_of_normalise hnormal
  obtain ⟨set, tier, specificity, hset, htier, hparameters⟩ :=
    (Resolver.origin_resolve p.resolver _).sound (h.resolver_eq ▸ htiers) h.sets
  obtain ⟨id, hid⟩ := hdecision.hybridId
  rw [← parameters] at hparameters
  refine ⟨?_, hlot, ?_, ?_, ?_, ?_⟩
  case refine_1 =>
    have houtcome : r.outcomeClass.name ≠ [] := by cases r.outcomeClass <;> decide
    have hduration : r.durationClass.name ≠ [] := by cases r.durationClass <;> decide
    have haction : r.action.name ≠ [] := by cases r.action <;> decide
    simp only [Response.texts, List.forall_mem_cons]
    refine ⟨hdecision.tradeId ▸ htrade, hid ▸ id.toText_ne_nil, hdecision.symbol ▸ hsymbol, houtcome,
      hduration, haction, ?_, ?_, HybridId.chainPosition_ne_nil hdecision.chainPosition, by simp⟩
    · rw [hdecision.parameterSetId, hparameters]
      exact hset.id_ne_nil
    · rw [hdecision.resolvedTier, hparameters]
      exact htier
  case refine_2 => rw [hparameters]; exact hset.multiplier
  case refine_3 => rw [hdecision.stopLoss, hparameters]; exact hset.stopLoss
  case refine_4 => rw [hdecision.takeProfit, hparameters]; exact hset.takeProfit
  case refine_5 => rw [hdecision.lotSize, h.settings_eq]; rfl

/-- One more answer. -/
theorem concat (h : Serving settings origin history p disk) {a : Answered} {q : Processor}
    {disk' : Disk} (hsetup : SameSetup p q) (hproper : a.Processed → a.Proper settings.processor)
    (hledger : ∃ entries ledger, q.ledger? = some ledger ∧
      Ledger.Reached .reentryDecisions settings.ledger.outputDirectory origin entries ledger disk' ∧
      entries.map (·.row) = rowsOf history ++ if a.Processed then [a.response.toRow] else []) :
    Serving settings origin (history ++ [a]) q disk' := by
  refine ⟨hsetup.settings.trans h.settings_eq, hsetup.resolverSettings.trans h.resolver_eq,
    by rw [hsetup.snapshot]; exact h.sets, by rw [rowsOf_append]; exact hledger,
    fun b hb hprocessed => ?_⟩
  rcases List.mem_append.1 hb with hb | hb
  · exact h.proper b hb hprocessed
  · obtain rfl := List.mem_singleton.1 hb
    exact hproper hprocessed

/-- One more answer that is no decision. -/
theorem concat_of_not (h : Serving settings origin history p disk) {a : Answered} {q : Processor}
    {disk' : Disk} (hsetup : SameSetup p q) (hnot : ¬a.Processed)
    (hledger : ∃ entries ledger, q.ledger? = some ledger ∧
      Ledger.Reached .reentryDecisions settings.ledger.outputDirectory origin entries ledger disk' ∧
      entries.map (·.row) = rowsOf history) :
    Serving settings origin (history ++ [a]) q disk' :=
  h.concat hsetup (fun hprocessed => absurd hprocessed hnot)
    (by rwa [if_neg hnot, List.append_nil])

theorem answer (h : Serving settings origin history p disk)
    (htiers : [] ∉ settings.resolver.tierHierarchy) {clock : Readings} (hera : clock.writing.InEra)
    (context : Context) :
    Serving settings origin
      (history ++ [{
        context, parameters := p.parameters (context.spelled p.vocabulary)
        response := (p.answer disk clock context).result }])
      (p.answer disk clock context).state.1 (p.answer disk clock context).state.2 := by
  obtain ⟨entries, ledger, hledger, hreached, hrows⟩ := h.ledger
  have hsetup := sameSetup_answer p disk clock context
  cases effect_answer p disk clock context with
  | unasked hstatus _ hsame hdisk =>
    exact h.concat_of_not hsetup hstatus
      ⟨entries, ledger, hsame.trans hledger, by rw [hdisk]; exact hreached, hrows⟩
  | refused symbol refusal _ hstatus _ hsame hdisk =>
    exact h.concat_of_not hsetup hstatus
      ⟨entries, ledger, hsame.trans hledger, by rw [hdisk]; exact hreached, hrows⟩
  | unidentified symbol _ hstatus _ hsame hdisk =>
    exact h.concat_of_not hsetup hstatus
      ⟨entries, ledger, hsame.trans hledger, by rw [hdisk]; exact hreached, hrows⟩
  | unwritten decided present e _ _ hpresent happend hstatus _ hsame hdisk =>
    obtain rfl : ledger = present := Option.some.inj (hledger.symm.trans hpresent)
    have hnext := hreached.append clock.writing hera decided.toRow
    rw [happend, Ledger.entryOf, List.append_nil] at hnext
    exact h.concat_of_not hsetup hstatus ⟨entries, _, hsame, by rw [hdisk]; exact hnext, hrows⟩
  | recorded decided present receipt hdecided _ hpresent happend hresult _ hsame hdisk =>
    obtain rfl : ledger = present := Option.some.inj (hledger.symm.trans hpresent)
    have hnext := hreached.append clock.writing hera decided.toRow
    rw [happend, Ledger.entryOf] at hnext
    refine h.concat hsetup ?_ ⟨_, _, hsame, by rw [hdisk]; exact hnext, ?_⟩
    · intro _
      rw [hresult]
      exact h.proper_of_decided htiers hdecided receipt
    · have hprocessed : (p.answer disk clock context).result.status = .processed := by rw [hresult]
      rw [List.map_append, hrows]
      simp only [Answered.Processed, hprocessed, if_true]
      rw [hresult]
      rfl
  | unrecorded _ _ _ hmissing _ _ _ _ => simp [hmissing] at hledger

end Serving

/-- Every answer keeps the invariant. -/
theorem serving_of_served (htiers : [] ∉ settings.resolver.tierHierarchy)
    (h : Served settings origin history p disk) : Serving settings origin history p disk := by
  induction h with
  | start resolver hfile =>
    exact ⟨rfl, hfile.1, sound_of_fromFile hfile, ⟨[], _, rfl, .start _ rfl, rfl⟩, by simp⟩
  | answer _ clock hera context ih => exact ih.answer htiers hera context
  | reload _ resolver hfile ih =>
    exact ⟨ih.settings_eq, hfile.1, sound_of_fromFile hfile, ih.ledger, ih.proper⟩

/-- The rows that were written are those of the decisions. -/
theorem forall_fits_iff {entries : List Ledger.Entry} (hrows : entries.map (·.row) = rowsOf history)
    (hproper : ∀ a ∈ history, a.Processed → a.Proper settings.processor)
    (hcheck : settings.check = .ok ())
    (hsteps : ∀ symbol, (settings.processor.lotStepOf symbol).isFinite = true) :
    (∀ e ∈ entries, Schema.reentryDecisions.Fits e.row) ↔
      ∀ a ∈ history, a.Processed → a.InRange settings.processor := by
  have hentries : (∀ e ∈ entries, Schema.reentryDecisions.Fits e.row) ↔
      ∀ row ∈ rowsOf history, Schema.reentryDecisions.Fits row := by
    rw [← hrows, List.forall_mem_map]
  rw [hentries, rowsOf, List.forall_mem_map]
  simp only [List.mem_filter, decide_eq_true_eq, and_imp]
  refine forall_congr' fun a => forall₂_congr ?_
  intro ha hprocessed
  exact (hproper a ha hprocessed).fits_iff (Settings.zero_lt_lotStepOf hcheck (hsteps _)) (hsteps _)

theorem length_rowsOf_le (history : List Answered) : (rowsOf history).length ≤ history.length := by
  rw [rowsOf, List.length_map]
  exact List.length_filter_le ..

/-- A processor whose settings were checked and are finite, with its sets from files and a directory
that had no ledger files: the cells of its decisions are finite decimals, the lot exactly if it is in
range; and as long as there are sequence numbers left, all ledger files pass an audit exactly if the
lots of all its decisions are in range. -/
theorem audits_of_served {names : List Text} (hcheck : settings.check = .ok ())
    (hsteps : ∀ symbol, (settings.processor.lotStepOf symbol).isFinite = true)
    (htiers : [] ∉ settings.resolver.tierHierarchy)
    (hnames : origin.fileNames settings.ledger.outputDirectory = .ok names)
    (hempty : ∀ name ∈ names,
      Ledger.FileName.recordType? name ≠ some Schema.reentryDecisions.recordType)
    (h : Served settings origin history p disk) :
    (∀ a ∈ history, a.Processed →
      Cell.isDecimal a.response.stopLoss.cellText = true ∧
      Cell.isDecimal a.response.takeProfit.cellText = true ∧
      (Cell.isDecimal a.response.lotSize.cellText = true ↔ a.InRange settings.processor)) ∧
    (history.length < 2 ^ 64 →
      ((∀ name, Ledger.FileName.recordType? name = some Schema.reentryDecisions.recordType → ∀ t,
        disk.file? (Path.join settings.ledger.outputDirectory name) = some t →
          (Audit.ofFile disk (Path.join settings.ledger.outputDirectory name)).passed = true) ↔
        ∀ a ∈ history, a.Processed → a.InRange settings.processor)) := by
  have hs := Schema.standard_of_mem_builtin (show Schema.reentryDecisions ∈ Schema.builtin by decide)
  have hserving := serving_of_served htiers h
  obtain ⟨entries, ledger, hledger, hreached, hrows⟩ := hserving.ledger
  have hkept := Ledger.kept_of_reached hs hnames hempty hreached
  refine ⟨?_, ?_⟩
  · intro a ha hprocessed
    have hproper := hserving.proper a ha hprocessed
    simp only [Binary64.isDecimal_cellText]
    refine ⟨hproper.stopLoss.2, hproper.takeProfit.2, ?_⟩
    rw [hproper.lotSize]
    exact ProcessorSettings.isFinite_sizeLot_iff (Settings.zero_lt_lotStepOf hcheck (hsteps _))
      (hsteps _) hproper.lot.1 hproper.multiplier.1 hproper.multiplier.2
  · intro hlength
    have hshort : entries.length < 2 ^ 64 := by
      refine Nat.lt_of_le_of_lt ?_ hlength
      rw [← List.length_map (·.row), hrows]
      exact length_rowsOf_le history
    rw [← forall_fits_iff hrows hserving.proper hcheck hsteps]
    constructor
    · intro hpassed e he
      obtain ⟨name, hname, hpath, hfile⟩ := hkept.placed e he
      obtain ⟨t, ht⟩ := Option.isSome_iff_exists.1 hfile
      exact ((hkept.passed_iff hs hname ht).1 (hpassed name hname t ht)).1 e
        (Ledger.mem_entriesAt.2 ⟨he, hpath⟩)
    · intro hfits name hname t ht
      refine (hkept.passed_iff hs hname ht).2 ⟨?_, ?_⟩
      · intro e he
        exact hfits e (Ledger.mem_entriesAt.1 he).1
      · exact (hkept.numbered.ascending hshort _).isChain

/-- A lot of 10^305, which the set of a file leaves as it is: the decision is processed, its lot is out
of range, and the ledger file that it is in does not pass. -/
theorem audits_of_served_largeLot :
    let settings : Settings := { ledger := { outputDirectory := "d" } }
    let origin : Disk := { working := .directory "d" .empty (.file "p.json" (.ofText
      "\x7b\"parameter_sets\":[\x7b\"id\":\"p\",\"tier\":\"GLOBAL\"\x7d]\x7d") .empty) }
    let set : ParameterSet := { id := "p", name := "p", tier := "GLOBAL" }
    let p : Processor := {
      settings := settings.processor, vocabulary := .builtin
      resolver := {
        settings := settings.resolver, vocabulary := .builtin, snapshot := { sets := [set] } }
      tracker := {
        cooldownMinutes := settings.processor.cooldownMinutes
        maxAttemptsPerDay := settings.processor.maxAttemptsPerDay }
      ledger? := some { settings := settings.ledger, schema := .reentryDecisions } }
    let context : Context := {
      tradeId := "T1", symbol := "EURUSD", lotSize := .ofNat (10 ^ 305), durationMinutes := .ofNat 15 }
    let step := p.answer origin (.constant 1768471200000) context
    let a : Answered := {
      context, parameters := p.parameters (context.spelled p.vocabulary), response := step.result }
    a.Processed ∧ ¬a.InRange settings.processor ∧
      ∃ name t, Ledger.FileName.recordType? name = some Schema.reentryDecisions.recordType ∧
        step.state.2.file? (Path.join "d" name) = some t ∧
        (Audit.ofFile step.state.2 (Path.join "d" name)).passed = false := by
  intro settings origin set p context step a
  have hfile : FromFile settings.resolver p.resolver :=
    ⟨rfl, origin, "p.json", by decide +kernel⟩
  have hserved : Served settings origin [a] step.state.1 step.state.2 :=
    (Served.start p.resolver hfile).answer (.constant 1768471200000) (by decide +kernel) context
  have hprocessed : a.Processed := by decide +kernel
  have hrange : ¬a.InRange settings.processor := by decide +kernel
  have hsteps (symbol : Text) : (settings.processor.lotStepOf symbol).isFinite = true := by
    rw [ProcessorSettings.lotStepOf, show settings.processor.lotSteps.find? symbol = none from rfl]
    decide +kernel
  have hnames : origin.fileNames settings.ledger.outputDirectory = .ok [] := by decide +kernel
  have haudits := (audits_of_served (by decide +kernel) hsteps (by decide +kernel) hnames (by simp)
    hserved).2 (by simp)
  refine ⟨hprocessed, hrange, ?_⟩
  by_contra hnone
  refine hrange (haudits.1 ?_ a (List.mem_singleton_self a) hprocessed)
  intro name hname t ht
  by_contra hfailed
  exact hnone ⟨name, t, hname, ht, Bool.of_not_eq_true hfailed⟩

end Processor

end TradeReentry
