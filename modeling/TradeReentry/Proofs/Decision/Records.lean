import TradeReentry.Proofs.Decimal.Cells
import TradeReentry.Proofs.Decision.Answers
import TradeReentry.Proofs.Decision.Lots
import TradeReentry.Proofs.Ledger.Runs
import TradeReentry.Proofs.Parameters.Resolving

/-!
# The rows of decisions

The row of a response has cells of the right kinds exactly if its texts are not empty and its numbers are
finite (`Response.fits_toRow_iff`). What a decision takes them from is in `Processor.Decision`.
-/

namespace TradeReentry

/-! ## The row of a response -/

namespace Cell

theorem check_text {column : Column} (hkind : column.kind = .text) (hrequired : column.isRequired = true)
    {cell : Text} : check column cell = .ok () ↔ cell ≠ [] := by
  cases cell <;> simp [check, hkind, hrequired]

theorem check_decimal {column : Column} (hkind : column.kind = .decimal)
    (hrequired : column.isRequired = true) {cell : Text} :
    check column cell = .ok () ↔ isDecimal cell = true := by
  cases cell with
  | nil => simp [check, hrequired, show isDecimal [] = false by decide +kernel]
  | cons c rest => simp [check, hkind]

/-- Required text columns accept what is not empty. -/
theorem forall_check_text {columns : List Column}
    (h : ∀ column ∈ columns, column.kind = .text ∧ column.isRequired = true) (cell : Column → Text) :
    (∀ column ∈ columns, check column (cell column) = .ok ()) ↔
      ∀ t ∈ columns.map cell, t ≠ [] := by
  rw [List.forall_mem_map]
  exact forall₂_congr fun column hcolumn => check_text (h column hcolumn).1 (h column hcolumn).2

/-- Required decimal columns accept the texts of finite numbers. -/
theorem forall_check_decimal {columns : List Column}
    (h : ∀ column ∈ columns, column.kind = .decimal ∧ column.isRequired = true)
    {cell : Column → Text} {numbers : List Binary64}
    (hcells : columns.map cell = numbers.map (·.cellText)) :
    (∀ column ∈ columns, check column (cell column) = .ok ()) ↔
      ∀ x ∈ numbers, x.isFinite = true := by
  have hdecimal : (∀ x ∈ numbers, x.isFinite = true) ↔
      ∀ t ∈ columns.map cell, isDecimal t = true := by
    simp only [hcells, List.forall_mem_map, Binary64.isDecimal_cellText]
  rw [hdecimal, List.forall_mem_map]
  exact forall₂_congr fun column hcolumn => check_decimal (h column hcolumn).1 (h column hcolumn).2

end Cell

theorem Schema.fits_iff {schema : Schema} {business : List Column}
    (hcolumns : schema.columns = systemColumns ++ business)
    (hbusiness : ∀ column ∈ business, column.name ∉ systemNames) (row : Row) :
    schema.Fits row ↔
      ∀ column ∈ business, Cell.check column ((row.find? column.name).getD []) = .ok () := by
  rw [Fits, hcolumns, List.forall_mem_append]
  refine ⟨fun h column hcolumn => h.2 column hcolumn (hbusiness column hcolumn), ?_⟩
  intro h
  exact ⟨fun column hcolumn hname => absurd (List.mem_map_of_mem hcolumn) hname,
    fun column hcolumn _ => h column hcolumn⟩

namespace Response

/-- The texts in the row of a response. -/
def texts (r : Response) : List Text :=
  [r.tradeId, r.hybridId, r.symbol, r.outcomeClass.name, r.durationClass.name, r.action.name,
    r.parameterSetId, r.resolvedTier, r.chainPosition]

/-- The numbers in the row of a response. -/
def numbers (r : Response) : List Binary64 := [r.lotSize, r.stopLoss, r.takeProfit]

def textColumns : List Column := (Schema.reentryDecisions.columns.drop 3).take 9

def numberColumns : List Column := Schema.reentryDecisions.columns.drop 12

/-- The row of a response has cells of the right kinds if its texts are not empty and its numbers are
finite. -/
theorem fits_toRow_iff (r : Response) :
    Schema.reentryDecisions.Fits r.toRow ↔
      (∀ t ∈ r.texts, t ≠ []) ∧ ∀ x ∈ r.numbers, x.isFinite = true := by
  have hcolumns : Schema.reentryDecisions.columns =
    Schema.systemColumns ++ (textColumns ++ numberColumns) := rfl
  have hbusiness : ∀ column ∈ textColumns ++ numberColumns, column.name ∉ Schema.systemNames := by
    decide
  have htext : ∀ column ∈ textColumns, column.kind = .text ∧ column.isRequired = true := by decide
  have hnumber : ∀ column ∈ numberColumns, column.kind = .decimal ∧ column.isRequired = true := by
    decide
  have htexts : textColumns.map (fun column => (r.toRow.find? column.name).getD []) = r.texts := by
    simp only [toRow, NameMap.find?_ofList]
    rfl
  have hnumbers : numberColumns.map (fun column => (r.toRow.find? column.name).getD []) =
      r.numbers.map (·.cellText) := by
    simp only [toRow, NameMap.find?_ofList]
    rfl
  rw [Schema.fits_iff hcolumns hbusiness, List.forall_mem_append, ← htexts,
    Cell.forall_check_text htext, Cell.forall_check_decimal hnumber hnumbers]

end Response

/-! ## What a decision consists of -/

namespace Context

variable {v : Vocabulary} {context c : Context}

theorem eq_nil_of_require {condition : Bool} {problem : Problem} :
    require condition problem = [] ↔ condition = true := by
  cases condition <;> simp [require]

/-- A context that can be decided names its trade and symbol, and its lot is finite and above zero. -/
theorem facts_of_normalise (h : context.normalise v = .ok c) :
    c = context.spelled v ∧ c.tradeId ≠ [] ∧ c.symbol ≠ [] ∧ ParameterSet.IsAmount c.lotSize := by
  unfold normalise at h
  split at h
  next hnone =>
    obtain rfl := Except.ok.inj h
    simp only [problems, List.append_eq_nil_iff, eq_nil_of_require, Bool.and_eq_true, Bool.not_eq_true',
      List.isEmpty_eq_false_iff, decide_eq_true_eq] at hnone
    obtain ⟨⟨⟨⟨⟨⟨⟨⟨⟨htrade, hsymbol⟩, hfinite, hpositive⟩, -⟩, -⟩, -⟩, -⟩, -⟩, -⟩, -⟩ := hnone
    exact ⟨rfl, htrade, hsymbol, hpositive, hfinite⟩
  · simp at h

end Context

theorem HybridId.chainPosition_ne_nil {generation : Int} {position : Text}
    (h : chainPosition generation = .ok position) : position ≠ [] := by
  unfold chainPosition at h
  split at h
  · exact Except.ok.inj h ▸ by decide
  split at h
  · exact Except.ok.inj h ▸ by decide
  split at h
  · exact Except.ok.inj h ▸ by decide
  · simp at h

theorem HybridId.toText_ne_nil (id : HybridId) : id.toText ≠ [] := by
  have hunderscore : ("_" : Text) ≠ [] := by decide
  simp [toText, hunderscore]

theorem ResolvedParameters.sound_emergency :
    ({ id := emergencyId, name := "Emergency Fallback", tier := emergencyTier
       reentryEnabled := false, confidenceThreshold := .one } : ParameterSet).Sound where
  id_ne_nil := by decide
  multiplier := ⟨by decide +kernel, by decide +kernel⟩
  stopLoss := ⟨by decide +kernel, by decide +kernel⟩
  takeProfit := ⟨by decide +kernel, by decide +kernel⟩

/-- Parameters are those of a sound set under a tier with a name. -/
theorem Resolver.Origin.sound {r : Resolver} {request : ResolveRequest}
    {resolved : ResolvedParameters} (h : Origin r request resolved)
    (htiers : [] ∉ r.settings.tierHierarchy) (hsets : ∀ set ∈ r.snapshot.sets, set.Sound) :
    ∃ (set : ParameterSet) (tier : Text) (specificity : Binary64), set.Sound ∧ tier ≠ [] ∧
      resolved = .ofSet set tier specificity request.generation := by
  cases h with
  | set tier htier set hset specificity =>
    exact ⟨set, tier, specificity, hsets set hset, fun heq => htiers (heq ▸ htier), rfl⟩
  | emergency => exact ⟨_, emergencyTier, .zero, ResolvedParameters.sound_emergency, by decide, rfl⟩

namespace Processor

variable {p : Processor} {context : Context} {r : Response}

/-- What the row of a decision on a context is made of. -/
structure Decision (p : Processor) (c : Context) (r : Response) : Prop where
  tradeId : r.tradeId = c.tradeId
  symbol : r.symbol = c.symbol
  hybridId : ∃ id : HybridId, r.hybridId = id.toText
  parameterSetId : r.parameterSetId = (p.parameters c).setId
  resolvedTier : r.resolvedTier = (p.parameters c).tier
  chainPosition : HybridId.chainPosition c.generation = .ok r.chainPosition
  lotSize : r.lotSize =
    p.settings.sizeLot c.symbol c.lotSize (p.parameters c).lotSizeMultiplier
  stopLoss : r.stopLoss = (p.parameters c).stopLossPips
  takeProfit : r.takeProfit = (p.parameters c).takeProfitPips

theorem Decided.decision (h : p.Decided context r) :
    ∃ c, context.normalise p.vocabulary = .ok c ∧ Decision p c r := by
  obtain ⟨c, identified, hnormal, -, hidentify, rfl⟩ := h
  obtain ⟨id, -, hidentify⟩ := bind_eq_ok_iff.1 hidentify
  obtain ⟨position, hposition, hidentify⟩ := bind_eq_ok_iff.1 hidentify
  obtain rfl := Except.ok.inj hidentify
  refine ⟨c, hnormal, ?_⟩
  simp only [Processor.decision, quantify, chooseAction]
  split <;> exact ⟨rfl, rfl, ⟨id, rfl⟩, rfl, rfl, hposition, rfl, rfl, rfl⟩

end Processor

end TradeReentry
