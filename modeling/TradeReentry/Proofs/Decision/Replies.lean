import TradeReentry.Decision.Response
import TradeReentry.Proofs.Json.Records

/-!
# Responses read back from their JSON form

The JSON form of a response is parsed as an object that repeats no key. Unless the response is processed
the object holds its status, its reason and the names of the trade, and nothing else; of a processed one it
gives back every field (`Restates`), the decimals as the numbers nearest to what their texts denote
(`parse_toJson`).
-/

namespace TradeReentry

open Json (Field Written)

namespace Response

/-! ## What a response says -/

/-- The texts of a processed response from the names of the trade to its position in the chain, by key. -/
def answers (r : Response) : List (Text × Text) := [
  ("trade_id", r.tradeId), ("symbol", r.symbol), ("identifier", r.hybridId), ("comment", r.comment),
  ("outcome_class", r.outcomeClass.name), ("duration_class", r.durationClass.name),
  ("reentry_action", r.action.name), ("parameter_set_id", r.parameterSetId),
  ("resolved_tier", r.resolvedTier), ("chain_position", r.chainPosition)]

/-- The texts that the JSON form of a processed response always has, by key. -/
def namedTexts (r : Response) : List (Text × Text) :=
  ("status", r.status.name) :: ("checksum", r.checksum) :: r.answers

/-- The texts of the decimals of a processed response and of its place in the ledger, by key. -/
def decimals (r : Response) : List (Text × Text) := [
  ("lot_size", r.lotSize.cellText), ("stop_loss", r.stopLoss.cellText),
  ("take_profit", r.takeProfit.cellText),
  ("confidence_score", r.confidence.decimalText confidencePlaces),
  ("file_seq", Text.ofNat r.sequence.toNat)]

/-- Whether a JSON value gives a processed response back. -/
structure Restates (v : Json) (r : Response) : Prop where
  texts : ∀ t ∈ r.namedTexts, v.field? t.1 = some (.string t.2)
  reason : v.field? "reason" = if r.reason = [] then none else some (.string r.reason)
  generation : (v.field? "generation").bind Json.asInt? = some r.generation
  nextGeneration : match r.nextGeneration? with
    | none => v.field? "next_generation" = some .null
    | some next => (v.field? "next_generation").bind Json.asInt? = some next
  decimals : ∀ t ∈ r.decimals, ∃ x,
    v.field? t.1 = some (.number x) ∧ x.IsNearest (Text.decimalValue t.2)

/-- The members of the object that stands for a response that is not processed. -/
def briefMembers (r : Response) : List (Text × Json) := [
  ("status", .string r.status.name), ("reason", .string r.reason), ("trade_id", .string r.tradeId),
  ("symbol", .string r.symbol)]

/-! ## What is written -/

/-- The fields of a response that is not processed. -/
def briefFields (r : Response) : List Field := [
  .ofText "status" r.status.name, .ofText "reason" r.reason, .ofText "trade_id" r.tradeId,
  .ofText "symbol" r.symbol]

/-- The reason of a processed response, if it has one. -/
def reasons (r : Response) : List (Text × Text) :=
  if r.reason = [] then [] else [("reason", r.reason)]

def nextGenerationField (r : Response) : Field :=
  .optional (fun next => .number (.ofInt next)) Text.ofInt "next_generation" r.nextGeneration?

/-- The fields of a processed response, if its decimals are read back as some numbers. -/
def fullFields (r : Response) (back : Text × Text → Binary64) : List Field :=
  .ofText "status" r.status.name :: ((r.reasons ++ r.answers).map fun t => .ofText t.1 t.2) ++
    .ofInt "generation" r.generation :: r.nextGenerationField ::
    ((r.decimals.map fun t => ⟨t.1, .number (back t), t.2⟩) ++ [.ofText "checksum" r.checksum])

theorem mem_fullFields_iff {r : Response} {back : Text × Text → Binary64} {f : Field} :
    f ∈ r.fullFields back ↔ f = .ofText "status" r.status.name ∨
      (∃ t ∈ r.reasons ++ r.answers, f = .ofText t.1 t.2) ∨ f = .ofInt "generation" r.generation ∨
      f = r.nextGenerationField ∨ (∃ t ∈ r.decimals, f = ⟨t.1, .number (back t), t.2⟩) ∨
      f = .ofText "checksum" r.checksum := by
  simp only [fullFields, List.mem_append, List.mem_cons, List.mem_map, List.not_mem_nil, or_false,
    or_assoc, eq_comm]

theorem members_of_ne_processed {r : Response} (h : r.status ≠ .processed) :
    r.members = r.briefFields.map Field.written := by
  rw [members, if_pos h]
  rfl

theorem members_of_processed {r : Response} (h : r.status = .processed)
    (back : Text × Text → Binary64) : r.members = (r.fullFields back).map Field.written := by
  rw [members, if_neg (not_not_intro h), fullFields, reasons]
  cases r.reason with
  | nil => rfl
  | cons c rest => rfl

/-! ## The keys -/

/-- The keys of a processed response. -/
def keys (r : Response) : List Text :=
  "status" :: ((if r.reason = [] then [] else ["reason"]) ++ [
    "trade_id", "symbol", "identifier", "comment", "outcome_class", "duration_class", "reentry_action",
    "parameter_set_id", "resolved_tier", "chain_position", "generation", "next_generation", "lot_size",
    "stop_loss", "take_profit", "confidence_score", "file_seq", "checksum"])

theorem keys_fullFields (r : Response) (back : Text × Text → Binary64) :
    ((r.fullFields back).map Field.member).map (·.1) = r.keys := by
  rw [fullFields, reasons, keys]
  split
  · rfl
  · rfl

theorem nodup_keys (r : Response) : r.keys.Nodup := by
  rw [keys]
  split
  · decide
  · decide

theorem reason_mem_keys_iff (r : Response) : ("reason" : Text) ∈ r.keys ↔ r.reason ≠ [] := by
  rw [keys]
  split
  · next h => exact iff_of_false (by decide) (not_not_intro h)
  · next h => exact iff_of_true (by decide) h

/-! ## Every value is read -/

/-- The text of a finite number with few places is read as the number nearest to what it denotes. -/
theorem exists_written_decimalText {x : Binary64} (h : x.isFinite = true) {places : Nat}
    (hfew : places ≤ 300) :
    ∃ y : Binary64, y.IsNearest (Text.decimalValue (x.decimalText places)) ∧
      Written (.number y) (x.decimalText places) := by
  obtain ⟨s, htext, hscale, hrange⟩ := x.exists_spelling h places
  rw [← htext]
  exact ⟨s.nearest, s.isNearest_nearest hrange,
    .numeral hrange (s.reaches_of_scale_le (Nat.le_trans hscale hfew))⟩

/-- So is the numeral of a sequence number. -/
theorem exists_written_sequence (n : UInt64) :
    ∃ y : Binary64, y.IsNearest (Text.decimalValue (Text.ofNat n.toNat)) ∧
      Written (.number y) (Text.ofNat n.toNat) := by
  have hrange : (Spelling.ofInt n.toNat).InRange := Spelling.inRange_ofInt (Nat.le_of_lt n.toNat_lt)
  have hreaches : (Spelling.ofInt n.toNat).Reaches := Spelling.reaches_of_scale_le (Nat.zero_le _)
  have htext : (Spelling.ofInt n.toNat).text = Text.ofNat n.toNat := Spelling.text_ofInt n.toNat
  rw [← htext]
  exact ⟨_, Spelling.isNearest_nearest hrange, .numeral hrange hreaches⟩

variable {r : Response}

/-- Every decimal of a response with finite numbers is read. -/
theorem exists_back (hlot : r.lotSize.isFinite = true) (hloss : r.stopLoss.isFinite = true)
    (hprofit : r.takeProfit.isFinite = true) (hconfidence : r.confidence.isFinite = true) :
    ∃ back : Text × Text → Binary64, ∀ t ∈ r.decimals,
      (back t).IsNearest (Text.decimalValue t.2) ∧ Written (.number (back t)) t.2 := by
  have hone : ∀ t ∈ r.decimals, ∃ y : Binary64,
      y.IsNearest (Text.decimalValue t.2) ∧ Written (.number y) t.2 := by
    simp only [decimals, List.forall_mem_cons]
    exact ⟨exists_written_decimalText hlot (by decide), exists_written_decimalText hloss (by decide),
      exists_written_decimalText hprofit (by decide), exists_written_decimalText hconfidence (by decide),
      exists_written_sequence r.sequence, by simp⟩
  have hall : ∀ t : Text × Text, ∃ y : Binary64,
      t ∈ r.decimals → y.IsNearest (Text.decimalValue t.2) ∧ Written (.number y) t.2 := by
    intro t
    by_cases ht : t ∈ r.decimals
    · obtain ⟨y, hy⟩ := hone t ht
      exact ⟨y, fun _ => hy⟩
    · exact ⟨.zero, fun h => absurd h ht⟩
  choose back hback using hall
  exact ⟨back, hback⟩

/-- Every field of a processed response is read. -/
theorem isPlain_fullFields (hgeneration : Text.inInt32 r.generation = true)
    (hnext : ∀ next, r.nextGeneration? = some next → Text.inInt32 next = true)
    {back : Text × Text → Binary64} (hback : ∀ t ∈ r.decimals, Written (.number (back t)) t.2) :
    ∀ f ∈ r.fullFields back, f.IsPlain := by
  intro f hf
  rcases mem_fullFields_iff.1 hf with rfl | ⟨t, -, rfl⟩ | rfl | rfl | ⟨t, ht, rfl⟩ | rfl
  · exact .ofText _ _
  · exact .ofText _ _
  · exact .ofInt _ hgeneration
  · exact .optional fun next h => .ofInt _ (hnext next h)
  · exact .number _ (hback t ht)
  · exact .ofText _ _

theorem isPlain_briefFields : ∀ f ∈ r.briefFields, f.IsPlain := by
  simp only [briefFields, List.forall_mem_cons]
  exact ⟨.ofText _ _, .ofText _ _, .ofText _ _, .ofText _ _, by simp⟩

/-- The fields of a processed response give it back. -/
theorem restates_fullFields (hgeneration : Text.inInt32 r.generation = true)
    (hnext : ∀ next, r.nextGeneration? = some next → Text.inInt32 next = true)
    {back : Text × Text → Binary64}
    (hback : ∀ t ∈ r.decimals, (back t).IsNearest (Text.decimalValue t.2)) :
    Restates (.object ((r.fullFields back).map Field.member)) r := by
  have hkeys : (((r.fullFields back).map Field.member).map (·.1)).Nodup :=
    keys_fullFields r back ▸ nodup_keys r
  have hfound : ∀ f ∈ r.fullFields back,
      (Json.object ((r.fullFields back).map Field.member)).field? f.key = some f.value :=
    fun f hf => Json.field?_of_mem hkeys (List.mem_map_of_mem hf)
  constructor
  case texts =>
    intro t ht
    refine hfound (.ofText t.1 t.2) (mem_fullFields_iff.2 ?_)
    rcases List.mem_cons.1 ht with rfl | ht
    · exact .inl rfl
    rcases List.mem_cons.1 ht with rfl | ht
    · exact .inr (.inr (.inr (.inr (.inr rfl))))
    · exact .inr (.inl ⟨t, List.mem_append_right _ ht, rfl⟩)
  case reason =>
    split
    · next h =>
      refine Json.field?_eq_none ?_
      rw [keys_fullFields]
      exact fun hmem => (reason_mem_keys_iff r).1 hmem h
    · next h =>
      have hmem : (("reason" : Text), r.reason) ∈ r.reasons ++ r.answers := by
        rw [reasons, if_neg h]
        exact List.mem_cons_self
      exact hfound (.ofText "reason" r.reason) (mem_fullFields_iff.2 (.inr (.inl ⟨_, hmem, rfl⟩)))
  case generation =>
    have hmem : .ofInt "generation" r.generation ∈ r.fullFields back :=
      mem_fullFields_iff.2 (.inr (.inr (.inl rfl)))
    exact Json.bind_asInt? hgeneration (hfound _ hmem)
  case nextGeneration =>
    have hfield := hfound r.nextGenerationField (mem_fullFields_iff.2 (.inr (.inr (.inr (.inl rfl)))))
    rw [nextGenerationField] at hfield
    cases h : r.nextGeneration? with
    | none =>
      rw [h] at hfield
      exact hfield
    | some next =>
      rw [h] at hfield
      exact Json.bind_asInt? (hnext next h) hfield
  case decimals =>
    intro t ht
    have hmem : ⟨t.1, .number (back t), t.2⟩ ∈ r.fullFields back :=
      mem_fullFields_iff.2 (.inr (.inr (.inr (.inr (.inl ⟨t, ht, rfl⟩)))))
    exact ⟨back t, hfound _ hmem, hback t ht⟩

/-- The JSON form of a response with finite numbers and 32-bit generations is read as an object that repeats
no key. The object gives the response back: its status, its reason and the names of its trade, and nothing
else, unless it is processed. -/
theorem parse_toJson (r : Response) (hlot : r.lotSize.isFinite = true)
    (hloss : r.stopLoss.isFinite = true) (hprofit : r.takeProfit.isFinite = true)
    (hconfidence : r.confidence.isFinite = true) (hgeneration : Text.inInt32 r.generation = true)
    (hnext : ∀ next, r.nextGeneration? = some next → Text.inInt32 next = true) :
    ∃ members, Json.parse r.toJson = .ok (.object members) ∧ (members.map (·.1)).Nodup ∧
      (r.status ≠ .processed → members = r.briefMembers) ∧
      (r.status = .processed → members.map (·.1) = r.keys ∧ Restates (.object members) r) := by
  rw [toJson]
  by_cases hstatus : r.status = .processed
  · obtain ⟨back, hback⟩ := exists_back hlot hloss hprofit hconfidence
    have hkeys := keys_fullFields r back
    have hparse := Json.parse_record (hkeys ▸ nodup_keys r)
      (isPlain_fullFields hgeneration hnext fun t ht => (hback t ht).2)
    rw [← members_of_processed hstatus back] at hparse
    exact ⟨_, hparse, hkeys ▸ nodup_keys r, absurd hstatus, fun _ =>
      ⟨hkeys, restates_fullFields hgeneration hnext fun t ht => (hback t ht).1⟩⟩
  · have hkeys : ((r.briefFields.map Field.member).map (·.1)).Nodup := by
      have hall : (r.briefFields.map Field.member).map (·.1) =
          ["status", "reason", "trade_id", "symbol"] := rfl
      rw [hall]
      decide
    have hparse := Json.parse_record hkeys isPlain_briefFields
    rw [← members_of_ne_processed hstatus] at hparse
    exact ⟨_, hparse, hkeys, fun _ => rfl, fun h => absurd h hstatus⟩

/-- A recorded answer to a trade whose name holds quotation marks and a byte above the ASCII range. -/
theorem parse_toJson_recorded :
    let r : Response := {
      status := .processed, tradeId := [0x22, 0xFF, 0x22], symbol := "EURUSD", generation := 1,
      nextGeneration? := some 2, lotSize := .ofDecimal 1 1, stopLoss := .ofInt 20, takeProfit := .ofInt 40,
      confidence := .ofDecimal 6 1, sequence := 1 }
    ∃ members, Json.parse r.toJson = .ok (.object members) ∧ ("reason" : Text) ∉ members.map (·.1) ∧
      (Json.object members).field? "trade_id" = some (.string r.tradeId) := by
  intro r
  have hnext : ∀ next, r.nextGeneration? = some next → Text.inInt32 next = true := by
    rintro next hnext
    obtain rfl := Option.some.inj hnext
    decide
  obtain ⟨members, hparse, -, -, hprocessed⟩ := parse_toJson r (by decide +kernel) (by decide +kernel)
    (by decide +kernel) (by decide +kernel) (by decide) hnext
  obtain ⟨hkeys, hrestates⟩ := hprocessed rfl
  have hreason : ("reason" : Text) ∉ r.keys := fun h => (reason_mem_keys_iff r).1 h rfl
  exact ⟨members, hparse, hkeys ▸ hreason,
    hrestates.texts ("trade_id", r.tradeId) (.tail _ (.tail _ (.head _)))⟩

end Response

end TradeReentry
