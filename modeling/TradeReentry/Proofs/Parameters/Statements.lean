import Mathlib.Data.List.Forall2
import TradeReentry.Proofs.Json.Records
import TradeReentry.Proofs.Parameters.Stars

/-!
# Files that state parameter sets

A file states a list of sets if each of its items states the fields of a set (`States`, `StatesAll`). It is
loaded as the sets without their patterns that are exactly a star, if they keep the rules, and else refused
for the rule that they break (`ofFile_of_statesAll`). Every list of sets with finite numbers and 32-bit
integers is stated by some text (`exists_statesAll`).
-/

namespace TradeReentry.ParameterSet

open Json (Field Written)

/-! ## The fields of a set -/

def texts (set : ParameterSet) : List (Text × Text) := [
  ("id", set.id), ("name", set.name), ("tier", set.tier)]

def predicates (set : ParameterSet) : List (Text × Option Text) := [
  ("outcome_class", set.outcomeClass?), ("duration_class", set.durationClass?),
  ("proximity_state", set.proximityState?), ("calendar_pattern", set.calendarPattern?),
  ("symbol_pattern", set.symbolPattern?)]

def flags (set : ParameterSet) : List (Text × Bool) := [
  ("reentry_enabled", set.reentryEnabled), ("active", set.active)]

def integers (set : ParameterSet) : List (Text × Int) := [
  ("max_generation", set.maxGeneration), ("min_wait_minutes", set.minWaitMinutes),
  ("max_wait_minutes", set.maxWaitMinutes)]

def amounts (set : ParameterSet) : List (Text × Binary64) := [
  ("lot_size_multiplier", set.lotSizeMultiplier), ("stop_loss_pips", set.stopLossPips),
  ("take_profit_pips", set.takeProfitPips), ("confidence_threshold", set.confidenceThreshold)]

def thresholds (set : ParameterSet) : List (Text × Option Binary64) := [
  ("volatility_threshold", set.volatilityThreshold?), ("spread_threshold", set.spreadThreshold?)]

/-- Whether a value that was found states an optional one. That there is none may be said by null. -/
def StatesOptional (found? value? : Option Json) : Prop :=
  found? = value? ∨ value? = none ∧ found? = some .null

/-- Whether a JSON value states each field of a set. -/
structure States (node : Json) (set : ParameterSet) : Prop where
  keys : node.checkKeys keys = .ok ()
  texts : ∀ t ∈ set.texts, node.field? t.1 = some (.string t.2)
  predicates : ∀ p ∈ set.predicates, StatesOptional (node.field? p.1) (p.2.map .string)
  flags : ∀ f ∈ set.flags, node.field? f.1 = some (.bool f.2)
  integers : ∀ i ∈ set.integers, (node.field? i.1).bind Json.asInt? = some i.2
  amounts : ∀ a ∈ set.amounts, node.field? a.1 = some (.number a.2)
  thresholds : ∀ t ∈ set.thresholds, StatesOptional (node.field? t.1) (t.2.map .number)

/-- Whether a JSON value states a list of sets. -/
structure StatesAll (root : Json) (sets : List ParameterSet) : Prop where
  keys : root.checkKeys ["version", "last_updated", "parameter_sets"] = .ok ()
  items : ∃ items, root.field? "parameter_sets" = some (.array items) ∧ List.Forall₂ States items sets

/-! ## Reading what is stated -/

section Reading

variable {node : Json} {key : Text}

theorem readText?_of_states {t? : Option Text} (h : StatesOptional (node.field? key) (t?.map .string)) :
    readText? node key = .ok t? := by
  rw [readText?]
  rcases h with h | ⟨hnone, h⟩
  · rw [h]
    cases t? <;> rfl
  · rw [h, Option.map_eq_none_iff.1 hnone]

theorem readNumber?_of_states {x? : Option Binary64}
    (h : StatesOptional (node.field? key) (x?.map .number)) : readNumber? node key = .ok x? := by
  rw [readNumber?]
  rcases h with h | ⟨hnone, h⟩
  · rw [h]
    cases x? <;> rfl
  · rw [h, Option.map_eq_none_iff.1 hnone]

theorem readField_of_bind {α : Type} {read? : Json → Option α} {value : α} (kind : Text) (default : α)
    (h : (node.field? key).bind read? = some value) : readField node key kind read? default = .ok value := by
  obtain ⟨found, hfound, hread⟩ := Option.bind_eq_some_iff.1 h
  rw [readField, hfound]
  dsimp only
  rw [hread]

/-- An item that states a set is read as the set without its patterns that are exactly a star. -/
theorem ofJson_of_states {set : ParameterSet} (h : States node set) :
    ofJson node = .ok set.withoutStars := by
  obtain ⟨hkeys, htexts, hpredicates, hflags, hintegers, hamounts, hthresholds⟩ := h
  simp only [texts, List.forall_mem_cons] at htexts
  simp only [predicates, List.forall_mem_cons] at hpredicates
  simp only [flags, List.forall_mem_cons] at hflags
  simp only [integers, List.forall_mem_cons] at hintegers
  simp only [amounts, List.forall_mem_cons] at hamounts
  simp only [thresholds, List.forall_mem_cons] at hthresholds
  obtain ⟨hid, hname, htier, -⟩ := htexts
  obtain ⟨houtcome, hduration, hproximity, hcalendar, hsymbol, -⟩ := hpredicates
  obtain ⟨hreentry, hactive, -⟩ := hflags
  obtain ⟨hgeneration, hmin, hmax, -⟩ := hintegers
  obtain ⟨hlot, hloss, hprofit, hconfidence, -⟩ := hamounts
  obtain ⟨hvolatility, hspread, -⟩ := hthresholds
  have hflag : ∀ {key b} default, node.field? key = some (.bool b) →
      readFlag node key default = .ok b := fun default hfound =>
    readField_of_bind _ default (congrArg (·.bind Json.asBool?) hfound)
  have hinteger : ∀ {key i} default, (node.field? key).bind Json.asInt? = some i →
      readInteger node key default = .ok i := fun default hfound => readField_of_bind _ default hfound
  have hamount : ∀ {key x} default, node.field? key = some (.number x) →
      readNumber node key default = .ok x := fun default hfound =>
    readField_of_bind _ default (congrArg (·.bind Json.asNumber?) hfound)
  simp only [ofJson, hkeys, hid, hname, htier, readText?_of_states houtcome, readText?_of_states hduration,
    readText?_of_states hproximity, readText?_of_states hcalendar, readText?_of_states hsymbol,
    hflag _ hreentry, hflag _ hactive, hinteger _ hgeneration, hinteger _ hmin, hinteger _ hmax,
    hamount _ hlot, hamount _ hloss, hamount _ hprofit, hamount _ hconfidence,
    readNumber?_of_states hvolatility, readNumber?_of_states hspread, Option.bind_some, Json.asString?]
  rfl

theorem exists_object_of_states {set : ParameterSet} (h : States node set) :
    ∃ members, node = .object members := by
  have hid := h.texts ("id", set.id) List.mem_cons_self
  cases node with
  | object members => exact ⟨members, rfl⟩
  | _ => simp [Json.field?] at hid

theorem ofItems_of_states {items : List Json} {sets : List ParameterSet}
    (h : List.Forall₂ States items sets) (index : Nat) :
    ofItems index items = .ok (sets.map withoutStars) := by
  induction h generalizing index with
  | nil => rfl
  | cons hset _ ih =>
    obtain ⟨members, rfl⟩ := exists_object_of_states hset
    rw [ofItems, ofJson_of_states hset]
    dsimp only
    rw [ih]
    rfl

/-- A file that states sets gives them without such patterns, unless they break a rule. -/
theorem ofFile_of_statesAll {disk : Disk} {path : Text} {root : Json} {sets : List ParameterSet}
    (hread : Json.ofFile disk path = .ok root) (h : StatesAll root sets) (v : Vocabulary)
    (tiers : List Text) :
    ofFile disk path v tiers =
      ((checkAll v tiers sets).mapError .rule).map fun _ => sets.map withoutStars := by
  obtain ⟨items, hitems, hstates⟩ := h.items
  have hlist : listOfJson path root = .ok (sets.map withoutStars) := by
    rw [listOfJson, h.keys]
    dsimp only
    rw [hitems]
    exact ofItems_of_states hstates 0
  rw [ofFile, hread]
  dsimp only
  rw [hlist]
  simp only [bind, Except.bind, checkAll_withoutStars]
  cases checkAll v tiers sets <;> rfl

end Reading

/-! ## Stating sets -/

/-- Whether the numbers of a set are finite and its integers have 32 bits. -/
structure IsWritable (set : ParameterSet) : Prop where
  integers : ∀ i ∈ set.integers, Text.inInt32 i.2 = true
  amounts : ∀ a ∈ set.amounts, a.2.isFinite = true
  thresholds : ∀ t ∈ set.thresholds, ∀ x, t.2 = some x → x.isFinite = true

/-- The members of an object that states a set. -/
def fields (set : ParameterSet) : List Field :=
  (set.texts.map fun t => .ofText t.1 t.2) ++
    (set.predicates.map fun p => .optional .string Json.quote p.1 p.2) ++
    (set.flags.map fun f => ⟨f.1, .bool f.2, if f.2 then "true" else "false"⟩) ++
    (set.integers.map fun i => .ofInt i.1 i.2) ++
    (set.amounts.map fun a => ⟨a.1, .number a.2, a.2.exactSpelling.text⟩) ++
    set.thresholds.map fun t => .optional .number (fun x => x.exactSpelling.text) t.1 t.2

theorem mem_fields_iff {set : ParameterSet} {f : Field} : f ∈ set.fields ↔
    (∃ t ∈ set.texts, .ofText t.1 t.2 = f) ∨
      (∃ p ∈ set.predicates, .optional .string Json.quote p.1 p.2 = f) ∨
      (∃ b ∈ set.flags, ⟨b.1, .bool b.2, if b.2 then "true" else "false"⟩ = f) ∨
      (∃ i ∈ set.integers, .ofInt i.1 i.2 = f) ∨
      (∃ a ∈ set.amounts, ⟨a.1, .number a.2, a.2.exactSpelling.text⟩ = f) ∨
      ∃ t ∈ set.thresholds, .optional .number (fun x => x.exactSpelling.text) t.1 t.2 = f := by
  simp only [fields, List.mem_append, List.mem_map, or_assoc]

/-- A finite number is read from its exact numeral. -/
theorem written_exactSpelling {x : Binary64} (h : x.isFinite = true) :
    Written (.number x) x.exactSpelling.text := by
  have hrange : x.exactSpelling.InRange := Binary64.inRange_spelling h _
  have hwritten := Written.numeral hrange x.reaches_exactSpelling
  rwa [Binary64.nearest_exactSpelling h] at hwritten

theorem isPlain_fields {set : ParameterSet} (h : set.IsWritable) : ∀ f ∈ set.fields, f.IsPlain := by
  intro f hf
  rcases mem_fields_iff.1 hf with ⟨t, -, rfl⟩ | ⟨p, -, rfl⟩ | ⟨⟨key, b⟩, -, rfl⟩ | ⟨i, hi, rfl⟩ |
    ⟨a, ha, rfl⟩ | ⟨t, ht, rfl⟩
  · exact .ofText _ _
  · exact .optional fun value _ => .ofText _ value
  · cases b with
    | true => exact ⟨.true, nofun, nofun⟩
    | false => exact ⟨.false, nofun, nofun⟩
  · exact .ofInt _ (h.integers i hi)
  · exact .number _ (written_exactSpelling (h.amounts a ha))
  · exact .optional fun x hx => .number _ (written_exactSpelling (h.thresholds t ht x hx))

/-- The keys of these members. -/
def statedKeys : List Text := [
  "id", "name", "tier", "outcome_class", "duration_class", "proximity_state", "calendar_pattern",
  "symbol_pattern", "reentry_enabled", "active", "max_generation", "min_wait_minutes",
  "max_wait_minutes", "lot_size_multiplier", "stop_loss_pips", "take_profit_pips",
  "confidence_threshold", "volatility_threshold", "spread_threshold"]

theorem keys_fields (set : ParameterSet) : (set.fields.map Field.member).map (·.1) = statedKeys := rfl

theorem nodup_statedKeys : statedKeys.Nodup := by decide

/-- The object that states a set. -/
def node (set : ParameterSet) : Json := .object (set.fields.map Field.member)

theorem states_node {set : ParameterSet} (h : set.IsWritable) : States set.node set := by
  have hfound : ∀ f ∈ set.fields, set.node.field? f.key = some f.value :=
    fun f hf => Json.field?_of_mem (keys_fields set ▸ nodup_statedKeys) (List.mem_map_of_mem hf)
  have hoptional : ∀ {α : Type} {value : α → Json} {text : α → Text} {key : Text} {content? : Option α},
      .optional value text key content? ∈ set.fields →
        StatesOptional (set.node.field? key) (content?.map value) := by
    intro _ _ _ _ content? hmem
    have hfield := hfound _ hmem
    cases content? with
    | none => exact .inr ⟨rfl, hfield⟩
    | some content => exact .inl hfield
  constructor
  case keys =>
    rw [node, Json.checkKeys, keys_fields]
    decide
  case texts => exact fun t ht => hfound _ (mem_fields_iff.2 (.inl ⟨t, ht, rfl⟩))
  case predicates => exact fun p hp => hoptional (mem_fields_iff.2 (.inr (.inl ⟨p, hp, rfl⟩)))
  case flags => exact fun b hb => hfound _ (mem_fields_iff.2 (.inr (.inr (.inl ⟨b, hb, rfl⟩))))
  case integers =>
    exact fun i hi => Json.bind_asInt? (h.integers i hi)
      (hfound _ (mem_fields_iff.2 (.inr (.inr (.inr (.inl ⟨i, hi, rfl⟩))))))
  case amounts =>
    exact fun a ha => hfound _ (mem_fields_iff.2 (.inr (.inr (.inr (.inr (.inl ⟨a, ha, rfl⟩))))))
  case thresholds =>
    exact fun t ht =>
      hoptional (mem_fields_iff.2 (.inr (.inr (.inr (.inr (.inr ⟨t, ht, rfl⟩))))))

/-- The text of that object. -/
def nodeText (set : ParameterSet) : Text :=
  Ascii.openBrace :: (Text.join "," (set.fields.map Field.written) ++ [Ascii.closeBrace])

theorem written_node {set : ParameterSet} (h : set.IsWritable) : Written set.node set.nodeText :=
  .record fun f hf => (isPlain_fields h f hf).written

theorem within_node {set : ParameterSet} (h : set.IsWritable) (levels : Nat) :
    Json.Within (levels + 2) set.node :=
  Json.within_record (keys_fields set ▸ nodup_statedKeys) (isPlain_fields h)

/-- The member of a file that holds its sets. -/
def setsField (sets : List ParameterSet) : Field :=
  ⟨"parameter_sets", .array (sets.map node),
    Ascii.openBracket :: (Text.join "," (sets.map nodeText) ++ [Ascii.closeBracket])⟩

/-- Sets whose numbers are finite and whose integers have 32 bits are stated by some text. -/
theorem exists_statesAll {sets : List ParameterSet} (h : ∀ set ∈ sets, set.IsWritable) :
    ∃ text root, Json.parse text = .ok root ∧ StatesAll root sets := by
  have hitems : Written (setsField sets).value (setsField sets).text := by
    have hlist := Written.list (sets.map fun set => (set.node, set.nodeText))
      (List.forall_mem_map.2 fun set hset => written_node (h set hset))
    rwa [List.map_map, List.map_map] at hlist
  have hwritten := Written.record (List.forall_mem_singleton.2 hitems)
  -- The values nest four levels deep, the reader has 65.
  have hwithin : Json.Within (Json.maxDepth + 1) (.object ([setsField sets].map Field.member)) := by
    refine Json.within_object_iff.2 ⟨List.nodup_singleton _, List.forall_mem_singleton.2 ?_⟩
    refine Json.within_array_iff.2 (List.forall_mem_map.2 fun set hset => ?_)
    exact within_node (h set hset) 61
  refine ⟨_, _, Json.parse_of_written hwritten hwithin, rfl, sets.map node, rfl, ?_⟩
  rw [List.forall₂_map_left_iff]
  exact List.forall₂_same.2 fun set hset => states_node (h set hset)

end TradeReentry.ParameterSet
