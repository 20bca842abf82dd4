import TradeReentry.Proofs.Decision.Records
import TradeReentry.Proofs.HybridId.Language

/-!
# Which trades have an identifier

A context that passes the checks has a direction, a proximity, a calendar and a generation of the vocabulary.
The tokens of its classes are fixed, though, and so are the positions in a chain: it cannot be identified if
the vocabulary does not list these tokens or if its generation is above the last position. `Processor.refusal?`
is the error of such a context, and `answer_of_normalised` says that nothing else stands in its way.
-/

namespace TradeReentry

/-! ## Contexts that pass the checks -/

namespace Context

variable {v : Vocabulary} {context c : Context}

/-- The generation after that in a comment is one of the vocabulary. -/
theorem isValidGeneration_generationAfter (hsound : v.Sound) (comment : Text) :
    v.isValidGeneration (generationAfter v comment) = true := by
  rw [Vocabulary.isValidGeneration_iff, generationAfter]
  split
  · next hvalid =>
    obtain ⟨id, hparse, hfaults⟩ := HybridId.isValid_eq_true_iff.1 hvalid
    have hallows := (HybridId.composable_of_parse hparse hfaults).allows
    obtain ⟨hfirst, hlast⟩ := Vocabulary.isValidGeneration_iff.1 hallows.generation
    rw [hparse]
    dsimp only
    omega
  · exact ⟨le_refl _, hsound.ordered⟩

/-- The parts of a context that the checks compare with the vocabulary. -/
structure Legal (v : Vocabulary) (c : Context) : Prop where
  direction : c.direction ∈ v.tokens .direction
  proximity : c.proximityState ∈ v.tokens .proximity
  calendar : v.isValidCalendar c.calendarId = true
  generation : v.isValidGeneration c.generation = true

theorem legal_of_normalise (hsound : v.Sound) (h : context.normalise v = .ok c) : c.Legal v := by
  unfold normalise at h
  split at h
  next hnone =>
    obtain rfl := Except.ok.inj h
    simp only [problems, List.append_eq_nil_iff, eq_nil_of_require, Bool.or_eq_true, decide_eq_true_eq,
      Vocabulary.isLegal, List.contains_iff_mem] at hnone
    obtain ⟨⟨⟨⟨⟨-, hdirection⟩, hproximity⟩, hcalendar⟩, -⟩, hgeneration⟩ := hnone
    refine ⟨hdirection, hproximity, hcalendar, ?_⟩
    by_cases hopen : context.generation = 0
    · rw [spelled, if_pos hopen]
      exact isValidGeneration_generationAfter hsound context.comment
    · rw [spelled, if_neg hopen]
      exact hgeneration.resolve_left hopen
  · simp at h

end Context

theorem HybridId.chainPosition_eq_error_iff {generation : Int} (hfirst : 1 ≤ generation)
    {e : HybridId.Error} :
    chainPosition generation = .error e ↔ 3 < generation ∧ e = .invalidGeneration generation := by
  unfold chainPosition
  split
  · simp; omega
  split
  · simp; omega
  split
  · simp; omega
  · have hlast : 3 < generation := by omega
    simp [hlast, eq_comm]

namespace Processor

variable {p : Processor} {disk : Disk} {clock : Readings} {context c : Context}

/-! ## Composing -/

/-- The classes of a context that the vocabulary does not list. -/
def unlisted (p : Processor) (c : Context) : List Vocabulary.Fault :=
  p.vocabulary.tokenFaults .outcome (p.settings.classifyOutcome c.profitLossPips).token ++
    p.vocabulary.tokenFaults .duration (p.settings.classifyDuration c.durationMinutes).name

/-- Why a context that passes the checks has no identifier. -/
def refusal? (p : Processor) (c : Context) : Option HybridId.Error :=
  if p.unlisted c ≠ [] then some (.invalidComponents (p.unlisted c))
  else if 3 < c.generation then some (.invalidGeneration c.generation)
  else none

/-- Whether a vocabulary lists the tokens of all classes and has no generation above the last position. -/
structure Covers (v : Vocabulary) : Prop where
  outcome : ∀ outcome : OutcomeClass, outcome.token ∈ v.tokens .outcome
  duration : ∀ duration : DurationClass, duration.name ∈ v.tokens .duration
  generation : v.generationMax ≤ 3

/-- Of the faults that composing looks for, the checks leave those of the classes. -/
theorem faults_partsOf (h : c.Legal p.vocabulary) {r : Response}
    (houtcome : r.outcomeClass = p.settings.classifyOutcome c.profitLossPips)
    (hduration : r.durationClass = p.settings.classifyDuration c.durationMinutes) :
    (partsOf c r).faults p.vocabulary = p.unlisted c := by
  have hdirection := Vocabulary.tokenFaults_eq_nil_iff.2 h.direction
  have hproximity := Vocabulary.tokenFaults_eq_nil_iff.2 h.proximity
  simp [HybridId.faults, Vocabulary.faults, partsOf, unlisted, houtcome, hduration, hdirection,
    hproximity, h.calendar, h.generation]

theorem identify_eq_error_iff {v : Vocabulary} {r : Response} {e : HybridId.Error} :
    identify v c r = .error e ↔
      ((partsOf c r).faults v ≠ [] ∧ e = .invalidComponents ((partsOf c r).faults v)) ∨
        ((partsOf c r).faults v = [] ∧ HybridId.chainPosition c.generation = .error e) := by
  have hsuffix : (partsOf c r).suffix? = none := rfl
  rw [identify, HybridId.compose, hsuffix]
  by_cases hfaults : (partsOf c r).faults v = []
  · cases hchain : HybridId.chainPosition c.generation with
    | error e' => simp [hfaults, bind, Except.bind]
    | ok position => simp [hfaults, bind, Except.bind]
  · simp [hfaults, bind, Except.bind, eq_comm]

theorem refusal?_eq_some_iff {e : HybridId.Error} :
    p.refusal? c = some e ↔ (p.unlisted c ≠ [] ∧ e = .invalidComponents (p.unlisted c)) ∨
      (p.unlisted c = [] ∧ 3 < c.generation ∧ e = .invalidGeneration c.generation) := by
  rw [refusal?]
  by_cases hlisted : p.unlisted c = []
  · simp [hlisted, eq_comm]
  · simp [hlisted, eq_comm]

/-- A context that passes the checks is identified unless it is refused. -/
theorem identified_eq_error_iff (hsound : p.vocabulary.Sound) (h : c.Legal p.vocabulary)
    {e : HybridId.Error} : p.identified c = .error e ↔ p.refusal? c = some e := by
  have hfirst : 1 ≤ c.generation :=
    hsound.generations.trans (Vocabulary.isValidGeneration_iff.1 h.generation).1
  rw [identified, identify_eq_error_iff, refusal?_eq_some_iff, faults_partsOf h rfl rfl,
    HybridId.chainPosition_eq_error_iff hfirst]

/-- Where the vocabulary lists all classes and the positions suffice, nothing is refused. -/
theorem Covers.refusal?_eq_none (hcovers : Covers p.vocabulary) (h : c.Legal p.vocabulary) :
    p.refusal? c = none := by
  have houtcome := Vocabulary.tokenFaults_eq_nil_iff.2
    (hcovers.outcome (p.settings.classifyOutcome c.profitLossPips))
  have hduration := Vocabulary.tokenFaults_eq_nil_iff.2
    (hcovers.duration (p.settings.classifyDuration c.durationMinutes))
  have hlisted : p.unlisted c = [] := by rw [unlisted, houtcome, hduration, List.append_nil]
  have hlast := (Vocabulary.isValidGeneration_iff.1 h.generation).2
  have hcover := hcovers.generation
  rw [refusal?, if_neg (not_not.2 hlisted), if_neg (by omega)]

/-- The built-in vocabulary lists all classes, and three generations. -/
theorem covers_builtin : Covers .builtin := by
  refine ⟨?_, ?_, by decide⟩
  · intro outcome
    cases outcome <;> decide
  · intro duration
    cases duration <;> decide

/-! ## Answers -/

/-- A decision that is reached is not answered as invalid. -/
theorem status_conclude_ne (p : Processor) (disk : Disk) (clock : Readings) (r : Response)
    (log : List Log.Entry) : (p.conclude disk clock r log).result.status ≠ .invalidContext := by
  unfold conclude
  dsimp only
  split
  · simp [finish]
  · simp [finish]

/-- The answer to a context that is admitted, by whether it is identified. -/
theorem answer_of_admitted (hnormal : context.normalise p.vocabulary = .ok c)
    (hgate : gate? p.settings c = none)
    (hacquire : (p.tracker.acquire c.symbol clock.admission).1 = .ok ()) (disk : Disk) :
    (∀ e, p.identified c = .error e →
      (p.answer disk clock context).result.status = .invalidContext ∧
        (p.answer disk clock context).result.reason = e.fullMessage) ∧
    (∀ r, p.identified c = .ok r →
      (p.answer disk clock context).result.status ≠ .invalidContext) := by
  obtain ⟨htrade, hsymbol⟩ := names_of_normalise hnormal
  rw [answer, hnormal]
  dsimp only
  rw [← htrade, ← hsymbol, hgate]
  dsimp only
  generalize p.tracker.acquire c.symbol clock.admission = acquired at hacquire
  obtain ⟨_, tracker⟩ := acquired
  obtain rfl := hacquire
  dsimp only
  rw [decide]
  dsimp only
  rw [← classified, ← parameters, ← identified]
  constructor
  · intro e hidentify
    rw [hidentify]
    exact ⟨rfl, rfl⟩
  · intro r hidentify
    rw [hidentify]
    apply status_conclude_ne

/-- The answer to a context that passes the checks, the gates and the admission, under a vocabulary that keeps
the rules. It is invalid exactly if it is refused, for a class that the vocabulary does not list or else a
generation above the last position, and then the answer says so. A vocabulary that covers all classes and
positions refuses nothing, and the built-in one does. -/
theorem answer_of_normalised (hcheck : p.vocabulary.check = .ok ())
    (hnormal : context.normalise p.vocabulary = .ok c) (hgate : gate? p.settings c = none)
    (hacquire : (p.tracker.acquire c.symbol clock.admission).1 = .ok ()) (disk : Disk) :
    (p.refusal? c = none → ∃ position,
      HybridId.compose p.vocabulary (partsOf c (p.classified c)) = .ok (partsOf c (p.classified c)) ∧
        HybridId.chainPosition c.generation = .ok position ∧
        (p.answer disk clock context).result.status ≠ .invalidContext) ∧
    (∀ e, p.refusal? c = some e →
      (p.answer disk clock context).result.status = .invalidContext ∧
        (p.answer disk clock context).result.reason = e.fullMessage) ∧
    (Covers p.vocabulary → p.refusal? c = none) ∧ Covers .builtin := by
  have hsound := Vocabulary.sound_of_check hcheck
  have hlegal := Context.legal_of_normalise hsound hnormal
  obtain ⟨hrefused, hreached⟩ := answer_of_admitted hnormal hgate hacquire disk
  refine ⟨?_, ?_, fun hcovers => hcovers.refusal?_eq_none hlegal, covers_builtin⟩
  · intro hnone
    cases hidentify : p.identified c with
    | error e =>
      rw [(identified_eq_error_iff hsound hlegal).1 hidentify] at hnone
      exact absurd hnone (Option.some_ne_none e)
    | ok r =>
      obtain ⟨id, hcompose, hrest⟩ := bind_eq_ok_iff.1 hidentify
      obtain ⟨position, hposition, -⟩ := bind_eq_ok_iff.1 hrest
      obtain ⟨rfl, -⟩ := HybridId.compose_eq_ok_iff.1 hcompose
      exact ⟨position, hcompose, hposition, hreached r hidentify⟩
  · intro e hsome
    exact hrefused e ((identified_eq_error_iff hsound hlegal).2 hsome)

/-- A vocabulary with other words for a win and with five generations. -/
def widened : Vocabulary := { Vocabulary.builtin with
  outcomes := [⟨"WIN", 1, []⟩, ⟨"BE", 0, []⟩, ⟨"L1", -1, []⟩]
  generationMax := 5 }

def widenedProcessor : Processor where
  settings := {}
  vocabulary := widened
  resolver := { settings := {}, vocabulary := widened }
  tracker := { cooldownMinutes := 15, maxAttemptsPerDay := 5 }

/-- A trade that ended where it began. -/
def evenTrade : Context where
  tradeId := "T1"
  symbol := "EURUSD"
  lotSize := .ofDecimal 1 1
  durationMinutes := .ofNat 10

/-- Its third generation is decided; its fourth one has no position. -/
theorem answer_of_normalised_evenTrade :
    let clock : Readings := .constant 1768471200000
    let third : Context := { evenTrade with generation := 3 }
    let fourth : Context := { evenTrade with generation := 4 }
    (widenedProcessor.answer {} clock third).result.status ≠ .invalidContext ∧
      (widenedProcessor.answer {} clock fourth).result.status = .invalidContext ∧
      (widenedProcessor.answer {} clock fourth).result.reason =
        "InvalidGeneration: Invalid generation: 4" := by
  intro clock third fourth
  have hcheck : widenedProcessor.vocabulary.check = .ok () := by decide +kernel
  have hthird : third.normalise widenedProcessor.vocabulary = .ok third := by decide +kernel
  have hfourth : fourth.normalise widenedProcessor.vocabulary = .ok fourth := by decide +kernel
  have hacquire (context : Context) :
      (widenedProcessor.tracker.acquire context.symbol clock.admission).1 = .ok () := rfl
  have hidentified := (answer_of_normalised hcheck hthird (by decide +kernel) (hacquire third) {}).1
  have hrefused := (answer_of_normalised hcheck hfourth (by decide +kernel) (hacquire fourth) {}).2.1
  obtain ⟨-, -, -, hstatus⟩ := hidentified (by decide +kernel)
  obtain ⟨hinvalid, hreason⟩ := hrefused (.invalidGeneration 4) (by decide +kernel)
  exact ⟨hstatus, hinvalid, hreason.trans (by decide +kernel)⟩

/-- Contexts that pass the checks, the gates and the admission and have no identifier, under settings and a
vocabulary that keep the rules: a win whose token is not listed, and a generation without a position. -/
theorem invalid_of_normalised :
    let won : Context := { evenTrade with profitLossPips := .ofNat 20 }
    let fourth : Context := { evenTrade with generation := 4 }
    let answer (context : Context) := (widenedProcessor.answer {} (.constant 1768471200000) context).result
    widened.check = .ok () ∧ ({} : Settings).check = .ok () ∧
      (∀ context ∈ [won, fourth], context.normalise widened = .ok context ∧
        gate? widenedProcessor.settings context = none ∧
        (widenedProcessor.tracker.acquire context.symbol 1768471200000).1 = .ok () ∧
        (answer context).status = .invalidContext) ∧
      (answer won).reason = "InvalidComponent: Invalid components: Invalid outcome: W1" ∧
      (answer fourth).reason = "InvalidGeneration: Invalid generation: 4" := by
  intro won fourth answer
  exact ⟨by decide +kernel, by decide +kernel, by decide +kernel, by decide +kernel,
    by decide +kernel⟩

end Processor

end TradeReentry
