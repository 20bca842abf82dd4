import TradeReentry.Proofs.Decision.Records
import TradeReentry.Proofs.HybridId.Language

/-!
# Chains of re-entries

A trade that follows another one carries the identifier of that decision as its comment and leaves its
generation open. Under the built-in vocabulary each decision of such a chain is one generation after the one
before it, up to the third generation, which leads nowhere. So a chain has at most two re-entries, whatever
parameter sets are loaded between its decisions (`bounded_of_exchanged`).
-/

namespace TradeReentry

/-- The generation after that of an identifier that can be read back. -/
theorem Context.generationAfter_toText {v : Vocabulary} {id : HybridId} (hsound : v.Sound)
    (h : HybridId.Composable v id) (hreadable : HybridId.Readable v id) :
    generationAfter v id.toText = min (id.generation + 1) v.generationMax := by
  rw [generationAfter, HybridId.isValid_toText hsound h hreadable, if_pos rfl,
    (HybridId.parse_toText_iff hsound h).2 hreadable]

namespace Processor

/-- A context and the answer to it. -/
structure Exchange where
  context : Context
  response : Response

namespace Exchange

/-- Whether the answer is a decision. -/
def Processed (x : Exchange) : Prop := x.response.status = .processed

instance (x : Exchange) : Decidable x.Processed := inferInstanceAs (Decidable (_ = _))

/-- Whether a trade follows another one: its comment is the identifier of the decision on that one, and its
generation is left open. -/
structure Follows (x y : Exchange) : Prop where
  generation : y.context.generation = 0
  comment : y.context.comment = x.response.hybridId

/-- The place in a chain that a decision gives to its trade. -/
structure Placed (v : Vocabulary) (x : Exchange) : Prop where
  generation : x.response.generation = (x.context.spelled v).generation
  identifier : ∃ id : HybridId, HybridId.Composable v id ∧ id.generation = x.response.generation ∧
    x.response.hybridId = id.toText
  next : (x.response.nextGeneration? = none ∧ x.response.action = .noReentry) ∨
    (x.response.generation < v.generationMax ∧
      x.response.nextGeneration? = some (x.response.generation + 1) ∧
      x.response.action = .into (x.response.generation + 1))

end Exchange

/-! ## The place of a decision -/

section

variable {p : Processor} {context : Context} {decided : Response}

/-- Parameters that allow a re-entry stop at a generation of the vocabulary. -/
theorem maxGeneration_parameters_le (hsets : p.resolver.Checked)
    (hvocabulary : p.resolver.vocabulary = p.vocabulary) {c : Context}
    (h : (p.parameters c).reentryEnabled = true) :
    (p.parameters c).maxGeneration ≤ p.vocabulary.generationMax := by
  have horigin : Resolver.Origin p.resolver (requestOf c (p.classified c)) (p.parameters c) :=
    p.resolver.origin_resolve _
  generalize p.parameters c = resolved at horigin h
  cases horigin with
  | set tier _ set hset specificity =>
    have hvalid := ParameterSet.isValidGeneration_of_check (hsets set hset)
    rw [hvocabulary] at hvalid
    exact (Vocabulary.isValidGeneration_iff.1 hvalid).2
  | emergency => exact absurd h Bool.false_ne_true

theorem placed_of_decided (hsets : p.resolver.Checked)
    (hvocabulary : p.resolver.vocabulary = p.vocabulary) (h : p.Decided context decided) :
    Exchange.Placed p.vocabulary ⟨context, decided⟩ := by
  obtain ⟨c, r, hnormal, -, hidentify, rfl⟩ := h
  obtain ⟨rfl, -, -, -⟩ := Context.facts_of_normalise hnormal
  obtain ⟨id, hcompose, hidentify⟩ := bind_eq_ok_iff.1 hidentify
  obtain ⟨position, -, hidentify⟩ := bind_eq_ok_iff.1 hidentify
  obtain rfl := Except.ok.inj hidentify
  obtain ⟨rfl, hcomposable⟩ := HybridId.compose_eq_ok_iff.1 hcompose
  simp only [decision, quantify, chooseAction]
  split
  · next hnext =>
    rw [Bool.and_eq_true, decide_eq_true_eq] at hnext
    have hlimit := maxGeneration_parameters_le hsets hvocabulary hnext.1
    exact ⟨rfl, ⟨_, hcomposable, rfl, rfl⟩, .inr ⟨lt_of_lt_of_le hnext.2 hlimit, rfl, rfl⟩⟩
  · exact ⟨rfl, ⟨_, hcomposable, rfl, rfl⟩, .inl ⟨rfl, rfl⟩⟩

/-- An answer that is a decision has a place. -/
theorem placed_answer (hsets : p.resolver.Checked)
    (hvocabulary : p.resolver.vocabulary = p.vocabulary) (disk : Disk) (clock : Readings)
    (context : Context) (hprocessed : (p.answer disk clock context).result.status = .processed) :
    Exchange.Placed p.vocabulary ⟨context, (p.answer disk clock context).result⟩ := by
  cases effect_answer p disk clock context with
  | unasked hother _ _ _ => exact absurd hprocessed hother
  | refused _ _ _ hother _ _ _ => exact absurd hprocessed hother
  | unidentified _ _ hother _ _ _ => exact absurd hprocessed hother
  | unwritten _ _ _ _ _ _ _ hother _ _ _ => exact absurd hprocessed hother
  | recorded _ _ _ hdecided _ _ _ hresult _ _ _ =>
    obtain ⟨hgeneration, hidentifier, hnext⟩ := placed_of_decided hsets hvocabulary hdecided
    rw [hresult]
    exact ⟨hgeneration, hidentifier, hnext⟩
  | unrecorded _ hdecided _ _ hresult _ _ _ =>
    obtain ⟨hgeneration, hidentifier, hnext⟩ := placed_of_decided hsets hvocabulary hdecided
    rw [hresult]
    exact ⟨hgeneration, hidentifier, hnext⟩

end

/-! ## Links -/

namespace Exchange

variable {x y : Exchange}

/-- The generations of the built-in vocabulary. -/
theorem Placed.range (h : x.Placed .builtin) : 1 ≤ x.response.generation ∧ x.response.generation ≤ 3 := by
  obtain ⟨id, hcomposable, hgeneration, -⟩ := h.identifier
  rw [← hgeneration]
  exact Vocabulary.isValidGeneration_iff.1 hcomposable.allows.generation

/-- Whether a decision comes next after another one. -/
structure Next (x y : Exchange) : Prop where
  generation : y.response.generation = min (x.response.generation + 1) 3
  announced : ∀ generation, x.response.nextGeneration? = some generation → y.response.generation = generation

theorem Placed.next_of_follows (hx : x.Placed .builtin) (hy : y.Placed .builtin) (h : Follows x y) :
    Next x y := by
  obtain ⟨id, hcomposable, hid, htext⟩ := hx.identifier
  have hgeneration : y.response.generation = min (x.response.generation + 1) 3 := by
    have hreadable := HybridId.readable_of_composable_builtin hcomposable
    have hsound := Vocabulary.sound_of_check Vocabulary.check_builtin
    rw [hy.generation, Context.spelled, if_pos h.generation, h.comment, htext,
      Context.generationAfter_toText hsound hcomposable hreadable, hid]
    rfl
  refine ⟨hgeneration, ?_⟩
  intro announced hannounced
  rcases hx.next with ⟨hnone, -⟩ | ⟨hlast, hsome, -⟩
  · rw [hnone] at hannounced
    exact absurd hannounced (Option.some_ne_none _).symm
  · rw [hsome, Option.some.injEq] at hannounced
    have hmax : Vocabulary.builtin.generationMax = 3 := rfl
    omega

/-- Whether a decision is a re-entry. -/
def Reenters (x : Exchange) : Prop := x.response.action = .r1 ∨ x.response.action = .r2

instance (x : Exchange) : Decidable x.Reenters := inferInstanceAs (Decidable (_ ∨ _))

/-- The last generation leads nowhere. -/
theorem Placed.action_of_last (h : x.Placed .builtin) (hlast : x.response.generation = 3) :
    x.response.action = .noReentry := by
  rcases h.next with ⟨-, haction⟩ | ⟨hlt, -⟩
  · exact haction
  · have hmax : Vocabulary.builtin.generationMax = 3 := rfl
    omega

theorem Placed.lt_of_reenters (h : x.Placed .builtin) (hreenters : x.Reenters) :
    x.response.generation < 3 := by
  rcases h.next with ⟨-, haction⟩ | ⟨hlt, -⟩
  · rcases hreenters with hr | hr
    · exact absurd (haction.symm.trans hr) (by decide)
    · exact absurd (haction.symm.trans hr) (by decide)
  · exact hlt

/-- From a decision on, a chain has no more re-entries than there are generations after it: a re-entry uses one
up, and nothing gives one back. -/
theorem countP_reenters_le {rest : List Exchange} (hplaced : ∀ z ∈ x :: rest, z.Placed .builtin)
    (hlinked : (x :: rest).IsChain Next) :
    ((x :: rest).countP fun z => z.Reenters) ≤ (3 - x.response.generation).toNat := by
  induction rest generalizing x with
  | nil =>
    have hx := hplaced x List.mem_cons_self
    by_cases hreenters : x.Reenters
    · have hlt := hx.lt_of_reenters hreenters
      rw [List.countP_cons_of_pos (by simpa using hreenters), List.countP_nil]
      omega
    · rw [List.countP_cons_of_neg (by simpa using hreenters), List.countP_nil]
      exact Nat.zero_le _
  | cons y rest ih =>
    obtain ⟨hx, hrest⟩ := List.forall_mem_cons.1 hplaced
    obtain ⟨hnext, hlinked⟩ := List.isChain_cons_cons.1 hlinked
    have hcount := ih hrest hlinked
    have hgeneration := hnext.generation
    have hrange := hx.range
    by_cases hreenters : x.Reenters
    · have hlt := hx.lt_of_reenters hreenters
      rw [List.countP_cons_of_pos (by simpa using hreenters)]
      omega
    · rw [List.countP_cons_of_neg (by simpa using hreenters)]
      omega

end Exchange

/-! ## Runs -/

/-- What a processor under the built-in vocabulary was asked and answered so far. Between two answers its
resolver may be given other sets or read them from a file again, and the disk may change. -/
inductive Exchanged : List Exchange → Processor → Prop where
  | start (p : Processor) (hvocabulary : p.vocabulary = .builtin)
      (hresolver : p.resolver.vocabulary = .builtin) (hsets : p.resolver.snapshot.sets = []) :
    Exchanged [] p
  | answer {history : List Exchange} {p : Processor} (h : Exchanged history p) (disk : Disk)
      (clock : Readings) (context : Context) :
    Exchanged (history ++ [⟨context, (p.answer disk clock context).result⟩])
      (p.answer disk clock context).state.1
  | load {history : List Exchange} {p : Processor} (h : Exchanged history p) (now : Instant)
      (sets : List ParameterSet) (source : Text) :
    Exchanged history { p with resolver := (p.resolver.load now sets source).state }
  | reload {history : List Exchange} {p : Processor} (h : Exchanged history p) (disk : Disk)
      (now : Instant) :
    Exchanged history { p with resolver := (p.resolver.reload disk now).state }

/-- What holds of a run. -/
structure Exchanging (history : List Exchange) (p : Processor) : Prop where
  vocabulary : p.vocabulary = .builtin
  resolverVocabulary : p.resolver.vocabulary = .builtin
  sets : p.resolver.Checked
  placed : ∀ x ∈ history, x.Processed → x.Placed .builtin

variable {history : List Exchange} {p : Processor}

theorem Exchanging.answer (h : Exchanging history p) (disk : Disk) (clock : Readings)
    (context : Context) :
    Exchanging (history ++ [⟨context, (p.answer disk clock context).result⟩])
      (p.answer disk clock context).state.1 := by
  have hsetup := sameSetup_answer p disk clock context
  refine ⟨hsetup.vocabulary.trans h.vocabulary, hsetup.resolverVocabulary.trans h.resolverVocabulary,
    ?_, ?_⟩
  · intro set hset
    rw [hsetup.snapshot] at hset
    rw [hsetup.resolverVocabulary, hsetup.resolverSettings]
    exact h.sets set hset
  · intro x hx hprocessed
    rcases List.mem_append.1 hx with hx | hx
    · exact h.placed x hx hprocessed
    · obtain rfl := List.mem_singleton.1 hx
      rw [← h.vocabulary]
      exact placed_answer h.sets (h.resolverVocabulary.trans h.vocabulary.symm) disk clock context
        hprocessed

theorem exchanging_of_exchanged (h : Exchanged history p) : Exchanging history p := by
  induction h with
  | start p hvocabulary hresolver hsets =>
    exact ⟨hvocabulary, hresolver, Resolver.checked_of_empty hsets, by simp⟩
  | answer _ disk clock context ih => exact ih.answer disk clock context
  | @load history p _ now sets source ih =>
    have hsame := (p.resolver.setup_load now sets source).2
    exact ⟨ih.vocabulary, hsame.trans ih.resolverVocabulary, ih.sets.load now sets source, ih.placed⟩
  | @reload history p _ disk now ih =>
    have hsame := (p.resolver.setup_reload disk now).2
    exact ⟨ih.vocabulary, hsame.trans ih.resolverVocabulary, ih.sets.reload disk now, ih.placed⟩

/-- A chain of decisions: each is one generation after the one before, up to the third, and at the generation
that the one before announced, if it did; the third leads to no re-entry, and there are at most two
re-entries in all. -/
theorem bounded_of_exchanged (h : Exchanged history p) {chain : List Exchange}
    (hchain : ∀ x ∈ chain, x ∈ history ∧ x.Processed) (hlinked : chain.IsChain Exchange.Follows) :
    chain.IsChain Exchange.Next ∧
      (∀ x ∈ chain, x.response.generation = 3 → x.response.action = .noReentry) ∧
      (chain.countP fun x => x.Reenters) ≤ 2 := by
  have hplaced : ∀ x ∈ chain, x.Placed .builtin := by
    intro x hx
    obtain ⟨hmem, hprocessed⟩ := hchain x hx
    exact (exchanging_of_exchanged h).placed x hmem hprocessed
  have hnext : chain.IsChain Exchange.Next := by
    refine hlinked.imp_of_mem_imp ?_
    intro x y hx hy hfollows
    exact (hplaced x hx).next_of_follows (hplaced y hy) hfollows
  refine ⟨hnext, fun x hx => (hplaced x hx).action_of_last, ?_⟩
  cases chain with
  | nil => exact Nat.zero_le 2
  | cons x rest =>
    have hcount := Exchange.countP_reenters_le hplaced hnext
    have hrange := (hplaced x List.mem_cons_self).range
    omega

/-- Three trades an hour apart, with other sets loaded after the first: two re-entries, and no third. -/
theorem bounded_of_exchanged_threeTrades :
    let p : Processor := {
      settings := {}, vocabulary := .builtin
      resolver := { settings := {}, vocabulary := .builtin }
      tracker := { cooldownMinutes := 15, maxAttemptsPerDay := 5 } }
    let trade : Context := {
      tradeId := "T1", symbol := "EURUSD", lotSize := .ofDecimal 1 1, durationMinutes := .ofNat 10 }
    let loaded (q : Processor) (sets : List ParameterSet) : Processor :=
      { q with resolver := (q.resolver.load 0 sets "memory").state }
    let first := (loaded p ParameterSet.defaults).answer {} (.constant 1768471200000) trade
    let after (id : Text) : Context := { trade with generation := 0, comment := id }
    let second := (loaded first.state.1 [ParameterSet.globalDefault]).answer {}
      (.constant 1768474800000) (after first.result.hybridId)
    let third := second.state.1.answer {} (.constant 1768478400000) (after second.result.hybridId)
    let chain : List Exchange := [⟨trade, first.result⟩, ⟨after first.result.hybridId, second.result⟩,
      ⟨after second.result.hybridId, third.result⟩]
    (chain.map fun x => (x.response.generation, x.response.action)) =
        [(1, .r1), (2, .r2), (3, .noReentry)] ∧
      chain.IsChain Exchange.Next ∧ (chain.countP fun x => x.Reenters) ≤ 2 := by
  intro p trade loaded first after second third chain
  have hrun : Exchanged chain third.state.1 := by
    have hstart : Exchanged [] p := .start p rfl rfl rfl
    have hfirst := (hstart.load 0 ParameterSet.defaults "memory").answer {}
      (.constant 1768471200000) trade
    have hsecond := (hfirst.load 0 [ParameterSet.globalDefault] "memory").answer {}
      (.constant 1768474800000) (after first.result.hybridId)
    exact hsecond.answer {} (.constant 1768478400000) (after second.result.hybridId)
  have hprocessed : ∀ x ∈ chain, x.Processed := by decide +kernel
  have hlinked : chain.IsChain Exchange.Follows :=
    .cons_cons ⟨rfl, rfl⟩ (.cons_cons ⟨rfl, rfl⟩ (.singleton _))
  have hbounded := bounded_of_exchanged hrun (fun x hx => ⟨hx, hprocessed x hx⟩) hlinked
  exact ⟨by decide +kernel, hbounded.1, hbounded.2.2⟩

end Processor

end TradeReentry
